import TallyDB.Table.Query
import TallyDB.View.Fold
import TallyDB.View.Shape

/-!
# What a definition stores

A bucketed definition stores its own answer. A running or cumulative one stores partial
aggregates under a hidden bucket of the ordering key. Either way the view's table holds an
aggregate that goes bucket by bucket.
-/

namespace TallyDB

variable {F : Type}

/-! ### Partial aggregates -/

/-- The columns that a bucket keeps of one aggregate, and how they combine across buckets. -/
inductive PartialForm where
  | sum | count | sumCount | min | max | first | last
  deriving DecidableEq

def PartialForm.of : AggFunction → PartialForm
  | .sum => .sum
  | .count => .count
  | .avg => .sumCount
  | .min => .min
  | .max => .max
  | .first => .first
  | .last => .last

structure Decomposition where
  form : PartialForm
  partials : List AggCall
  combines : List AggCall

def partialName (index : Nat) : String := s!"__p{index}"

/-- The partial calls of an aggregate from a column index on, and the calls that combine them. -/
def decompose (call : AggCall) (nextIndex : Nat) : Decomposition :=
  let stored (function : AggFunction) (offset : Nat) : AggCall :=
    ⟨function, call.argument, some (partialName (nextIndex + offset))⟩
  let combined (function : AggFunction) (offset : Nat) : AggCall :=
    ⟨function, some (partialName (nextIndex + offset)), some (partialName (nextIndex + offset))⟩
  match PartialForm.of call.function with
  | .sum => ⟨.sum, [stored .sum 0], [combined .sum 0]⟩
  -- Counts add.
  | .count => ⟨.count, [stored .count 0], [combined .sum 0]⟩
  | .sumCount => ⟨.sumCount, [stored .sum 0, stored .count 1], [combined .sum 0, combined .sum 1]⟩
  | .min => ⟨.min, [stored .min 0], [combined .min 0]⟩
  | .max => ⟨.max, [stored .max 0], [combined .max 0]⟩
  | .first => ⟨.first, [stored .first 0], [combined .first 0]⟩
  | .last => ⟨.last, [stored .last 0], [combined .last 0]⟩

def hiddenBucket : String := "__bucket"

/-! ### Materializations -/

def Projection.keys : Projection F → List GroupKey
  | .aggregate keys _ _ => keys
  | .items _ => []

def Projection.aggItems : Projection F → List AggItem
  | .aggregate _ list _ => list
  | .items _ => []

def Projection.planItems : Projection F → List (PlanItem F)
  | .aggregate _ _ _ => []
  | .items list => list

def AggItem.isKey : AggItem → Bool
  | key _ _ => true
  | call _ => false

def runningItems : List AggItem → Nat → List AggItem
  | [], _ => []
  | .key term as :: rest, index => .key term as :: runningItems rest index
  | .call call :: rest, index =>
      (decompose call index).partials.map .call ++ runningItems rest
        (index + (decompose call index).partials.length)

def cumulativeItems : List (PlanItem F) → Nat → List AggItem
  | [], _ => []
  | .window (.agg function args _ _ _) _ :: rest, index =>
    let call : AggCall := ⟨(expandingWindowFunction function).getD .count, args.head?, none⟩
    (decompose call index).partials.map .call ++ cumulativeItems rest
      (index + (decompose call index).partials.length)
  | _ :: rest, index => cumulativeItems rest index

def GroupKey.plainName : GroupKey → Option String
  | column name => some name
  | bucket _ _ _ => none

def PlanItem.partitions : PlanItem F → List String
  | .window (.agg _ _ partitionBy _ _) _ => partitionBy.filterMap GroupKey.plainName
  | _ => []

def partitionColumns (items : List (PlanItem F)) : List String :=
  firstAppearances (items.flatMap PlanItem.partitions)

def TableInfo.hidden (source : TableInfo) (width : Int64) : GroupKey :=
  .bucket source.orderingKeyName width none

/-- An aggregate by the keys and the hidden bucket. -/
def internalPlan (user : Plan F) (source : TableInfo) (width : Int64) (keys : List GroupKey)
    (items : List AggItem) : Plan F where
  table := user.table
  join := none
  projection := .aggregate (keys ++ [source.hidden width])
    (items ++ [.key (source.hidden width) (some hiddenBucket)]) none
  distinct := false
  predicate := user.predicate
  orderBy := none
  limit := none
  offset := none
  asOf := none

def Definition.hidden (user : Plan F) (source : TableInfo) (width : Int64) (keys : List GroupKey)
    (items : List AggItem) : Definition F where
  plan := internalPlan user source width keys items
  bucketName := hiddenBucket
  divide := width
  viewScale := 1

/-- How a query turns the materialization into answers. -/
inductive ReadShape where
  | direct | running | cumulative | joined
  deriving DecidableEq

section Definitions

variable [F64Math F] (registry : Registry F)

/-- No segment is asked for where all are resident, or there is none. -/
def noSegments : SegmentReader F := fun _ => .error (.misuse "a resident segment is not read")

/-- The plan over no row, for the shape of its answer. -/
def executePlanEmpty (source : TableInfo) (plan : Plan F) : Except EngineError (QueryOutput F) :=
  (executeWithOrderingKey source.schema [] source.orderingKey plan registry noSegments).mapError .query

def hiddenDefinition (user : Plan F) (source : TableInfo) (width : Int64) (keys : List GroupKey)
    (items : List AggItem) :
    Except EngineError (Definition F) := do
  let _ ← executePlanEmpty registry source user
  .ok (.hidden user source width keys items)

def synthesizeRunning (user : Plan F) (source : TableInfo) (width : Int64) : Except EngineError
      (Definition F) :=
  hiddenDefinition registry user source width user.projection.keys
    (runningItems user.projection.aggItems 0)

def synthesizeCumulative (user : Plan F) (source : TableInfo) (width : Int64) : Except EngineError
      (Definition F) :=
  let columns := partitionColumns user.projection.planItems
  hiddenDefinition registry user source width (columns.map .column)
    (columns.map (fun name => .key (.column name) none) ++ cumulativeItems user.projection.planItems 0)

/-- The definition that some SQL lowers to. The width is that of a hidden bucket; 0 is not yet
chosen. -/
def Definition.of (lower : String → Except QueryError (Plan F)) (sql : String) (source : TableInfo)
    (dimension : Option TableInfo) (width : Nat) :
    Except EngineError (Definition F × ReadShape) := do
  let plan ← (lower sql).mapError .query
  let shape ← eligibleShape plan source dimension
  match shape with
  | .bucketed bucket name | .joinedBucketed bucket name =>
    .ok ({
        plan, bucketName := name, divide := (bucketArithmetic bucket).1
        viewScale := (bucketArithmetic bucket).2 },
      if plan.join.isSome then .joined else .direct)
  | .running => (synthesizeRunning registry plan source (Int64.ofNat (max width 1))).map (·, .running)
  | .cumulative =>
      (synthesizeCumulative registry plan source (Int64.ofNat (max width 1))).map (·, .cumulative)
  | .joined name => .ok ({ plan, bucketName := name, divide := 1, viewScale := 1 }, .joined)

end Definitions

/-! ### Reserved names -/

theorem ineligibleIf_ok {condition : Bool} {what : String} {passed : Unit}
    (ok : ineligibleIf condition what = .ok passed) : condition = false := by
  cases condition with
  | false => rfl
  | true => cases ok

theorem reservedNamesFree_ok {plan : Plan F} {shape : String} {passed : Unit}
    (free : reservedNamesFree plan shape = .ok passed) :
    ∀ name ∈ plan.referencedColumns ++ plan.projection.aliases, reservedName name = false := by
  unfold reservedNamesFree at free
  split at free
  · next none_ =>
    intro name member
    simpa using List.find?_eq_none.mp none_ name member
  · cases free

/-- A bucket of a column is shown under a name that is no more reserved than the column's. -/
theorem GroupKey.outputName_free {term : GroupKey} (free : reservedName term.columnName = false) :
    reservedName term.outputName = false := by
  cases term with
  | column name => exact free
  | bucket name divide multiply =>
    unfold reservedName at free ⊢
    cases multiply with
    | none =>
      have shown : (GroupKey.bucket name divide none).outputName.toList = name.toList ++ ' ' ::
          ('/' :: ' ' :: (toString divide).toList) := by
        simp [GroupKey.outputName, toString]
      rw [shown]
      rw [GroupKey.columnName] at free
      generalize name.toList = letters at free ⊢
      rcases letters with - | ⟨first, - | ⟨second, rest⟩⟩
      · rfl
      · simp [List.isPrefixOf]
      · simpa [List.isPrefixOf] using free
    | some multiply => simp [GroupKey.outputName, toString, List.isPrefixOf]

theorem ne_hiddenBucket {name : String} (free : reservedName name = false) : name ≠ hiddenBucket := by
  rintro rfl
  cases free

theorem partialName_ne (index : Nat) : partialName index ≠ hiddenBucket := by
  intro same
  have letters := congrArg String.toList same
  simp [partialName, hiddenBucket, toString] at letters

theorem decompose_named (call : AggCall) (index : Nat) : ∀ stored ∈ (decompose call index).partials,
    ∃ place, stored.as = some (partialName place) := by
  obtain ⟨function, argument, as⟩ := call
  cases function <;> simp [decompose, PartialForm.of]

theorem partials_clear (call : AggCall) (index : Nat) :
    ∀ item ∈ (decompose call index).partials.map AggItem.call, item.outputName ≠ hiddenBucket := by
  intro item member
  obtain ⟨stored, inside, rfl⟩ := List.mem_map.mp member
  obtain ⟨place, named⟩ := decompose_named call index stored inside
  rw [AggItem.outputName, named, Option.getD_some]
  exact partialName_ne place

theorem runningItems_clear {items : List AggItem}
    (free : ∀ item ∈ items, item.isKey = true → item.outputName ≠ hiddenBucket) (index : Nat) :
    ∀ item ∈ runningItems items index, item.outputName ≠ hiddenBucket := by
  induction items generalizing index with
  | nil => simp [runningItems]
  | cons first rest ih =>
    have later := fun item member => free item (List.mem_cons_of_mem _ member)
    cases first with
    | key term as =>
      intro item member
      rcases List.mem_cons.mp member with rfl | member
      · exact free _ List.mem_cons_self rfl
      · exact ih later index item member
    | call call =>
      intro item member
      rcases List.mem_append.mp member with own | member
      · exact partials_clear call index item own
      · exact ih later _ item member

theorem cumulativeItems_clear (items : List (PlanItem F)) (index : Nat) :
    ∀ item ∈ cumulativeItems items index, item.outputName ≠ hiddenBucket := by
  induction items, index using cumulativeItems.induct with
  | case1 index => simp [cumulativeItems]
  | case2 function args _ _ _ _ rest index call ih =>
    intro item member
    rw [cumulativeItems] at member
    rcases List.mem_append.mp member with own | member
    · exact partials_clear call index item own
    · exact ih item member
  | case3 first rest index other ih =>
    intro item member
    rw [cumulativeItems] at member
    · exact ih item member
    · exact other

theorem mem_of_firstAppearances {names : List String} {name : String}
    (member : name ∈ firstAppearances names) : name ∈ names := by
  induction names with
  | nil => exact member
  | cons first rest ih =>
    rcases List.mem_cons.mp member with rfl | later
    · exact List.mem_cons_self
    · exact List.mem_cons_of_mem _ (ih (List.mem_filter.mp later).1)

theorem mem_of_partitionColumns {items : List (PlanItem F)} {name : String}
    (member : name ∈ partitionColumns items) :
    name ∈ items.flatMap PlanItem.columns := by
  obtain ⟨item, inside, partitioned⟩ := List.mem_flatMap.mp (mem_of_firstAppearances member)
  refine List.mem_flatMap.mpr ⟨item, inside, ?_⟩
  cases item with
  | column _ _ => cases partitioned
  | computed _ _ _ => cases partitioned
  | window call _ =>
    cases call with
    | value _ _ _ _ _ => cases partitioned
    | agg _ _ partitionBy _ _ =>
      obtain ⟨term, listed, plain⟩ := List.mem_filterMap.mp partitioned
      cases term with
      | bucket _ _ _ => cases plain
      | column column =>
        obtain rfl := Option.some.inj plain
        exact List.mem_append_right _ (List.mem_map.mpr ⟨_, listed, rfl⟩)

/-! ### The bucket of a definition -/

/-- A plan that neither joins nor rearranges, over the latest state. -/
structure Plan.Plain (plan : Plan F) : Prop where
  asOf : plan.asOf = none
  join : plan.join = none
  distinct : plan.distinct = false
  orderBy : plan.orderBy = none
  limit : plan.limit = none
  offset : plan.offset = none

section Eligible

variable {plan : Plan F} {source : TableInfo} {shape : Shape} {keys : List GroupKey}
  {items : List AggItem} {having_ : Option (Having F)}

/-- A definition over one table is plain, and classified by its projection. -/
theorem eligibleShape_single (found : eligibleShape plan source none = .ok shape) : plan.Plain ∧
    ((∃ keys items having_, plan.projection = .aggregate keys items having_ ∧
      classifyAggregate plan source keys items having_ = .ok shape) ∨
      ∃ items, plan.projection = .items items ∧ classifyCumulative plan source items = .ok shape) := by
  unfold eligibleShape at found
  obtain ⟨_, latest, found⟩ := except_bind_ok found
  obtain ⟨_, _, found⟩ := except_bind_ok found
  have asOf : plan.asOf = none := by simpa using ineligibleIf_ok latest
  cases join : plan.join with
  | some join_ =>
    rw [join] at found
    cases found
  | none =>
    rw [join] at found
    obtain ⟨_, distinct, found⟩ := except_bind_ok found
    obtain ⟨_, ordered, found⟩ := except_bind_ok found
    have unordered := ineligibleIf_ok ordered
    simp only [Bool.or_eq_false_iff, Option.isSome_eq_false_iff, Option.isNone_iff_eq_none] at unordered
    refine ⟨⟨asOf, join, ineligibleIf_ok distinct, unordered.1.1, unordered.1.2, unordered.2⟩, ?_⟩
    cases projection : plan.projection with
    | aggregate keys items having_ =>
      rw [projection] at found
      exact .inl ⟨keys, items, having_, rfl, found⟩
    | items items =>
      rw [projection] at found
      exact .inr ⟨items, rfl, found⟩

theorem selectedName_ok {bucket : GroupKey} {name : String}
    (found : selectedName bucket items = .ok name) :
    bucket.sameWidth = true ∧ ∃ item, items.find? (AggItem.selects bucket) = some item ∧
    item.outputName = name := by
  obtain ⟨_, same, found⟩ := except_bind_ok found
  refine ⟨by simpa using ineligibleIf_ok same, ?_⟩
  split at found
  · next item here => exact ⟨item, here, Except.ok.inj found⟩
  · cases found

theorem classifyAggregate_ok
    (found : classifyAggregate plan source keys items having_ = .ok shape) : having_ = none ∧
    ((∃ bucket name, keys.filter (GroupKey.bucketTerm source.orderingKeyName) = [bucket] ∧
      selectedName bucket items = .ok name ∧
        shape = .bucketed bucket name) ∨
      shape = .running ∧ keys.filter (GroupKey.bucketTerm source.orderingKeyName) = [] ∧
        ∀ name ∈ plan.referencedColumns ++ plan.projection.aliases, reservedName name = false) := by
  unfold classifyAggregate at found
  obtain ⟨_, bare, found⟩ := except_bind_ok found
  obtain ⟨_, _, found⟩ := except_bind_ok found
  refine ⟨by simpa using ineligibleIf_ok bare, ?_⟩
  split at found
  · next none_ =>
    obtain ⟨_, free, found⟩ := except_bind_ok found
    obtain ⟨_, _, found⟩ := except_bind_ok found
    exact .inr ⟨(Except.ok.inj found).symm, none_, reservedNamesFree_ok free⟩
  · next bucket here =>
    obtain ⟨name, named, found⟩ := except_bind_ok found
    exact .inl ⟨bucket, name, here, named, (Except.ok.inj found).symm⟩
  · cases found

theorem classifyCumulative_ok {items : List (PlanItem F)}
    (found : classifyCumulative plan source items = .ok shape) :
    shape = .cumulative ∧ ∀ name ∈ plan.referencedColumns ++ plan.projection.aliases,
    reservedName name = false := by
  unfold classifyCumulative at found
  obtain ⟨windows, _, found⟩ := except_bind_ok found
  obtain ⟨_, _, found⟩ := except_bind_ok found
  obtain ⟨_, _, found⟩ := except_bind_ok found
  obtain ⟨_, _, found⟩ := except_bind_ok found
  obtain ⟨_, _, found⟩ := except_bind_ok found
  obtain ⟨_, free, found⟩ := except_bind_ok found
  exact ⟨(Except.ok.inj found).symm, reservedNamesFree_ok free⟩

end Eligible

theorem Schema.resolve_index {schema : Schema} {name : String} {index : Nat} {field : Field}
    (resolved : schema.resolve name = .ok (index, field)) :
    columnIndex schema name = .ok index := by
  unfold Schema.resolve at resolved
  split at resolved
  · next field' index' found =>
    obtain ⟨rfl, rfl⟩ := Prod.mk.inj (Except.ok.inj resolved)
    obtain ⟨named, place, inside, here, before⟩ := List.find?_eq_some_iff_getElem.mp found
    rw [List.getElem_zipIdx] at here
    obtain ⟨rfl, rfl⟩ := Prod.mk.inj here
    simp only [List.length_zipIdx, Nat.zero_add] at inside named ⊢
    have first : schema.fields.findIdx? (·.name = name) = some place := by
      refine List.findIdx?_eq_some_iff_getElem.mpr ⟨inside, named, fun earlier less => ?_⟩
      simpa using before earlier less
    rw [columnIndex, first]
  · cases resolved

theorem Schema.resolve_of_index {schema : Schema} {name : String} {index : Nat} {field : Field}
    (found : columnIndex schema name = .ok index)
    (declared : schema.fields[index]? = some field) : schema.resolve name = .ok (index, field) := by
  cases resolved : schema.resolve name with
  | ok pair =>
    obtain ⟨place, field'⟩ := pair
    obtain rfl := Except.ok.inj ((Schema.resolve_index resolved).symm.trans found)
    obtain rfl := Option.some.inj ((Schema.resolve_declared resolved).symm.trans declared)
    rfl
  | error e =>
    unfold Schema.resolve at resolved
    split at resolved
    · cases resolved
    · next none_ =>
      obtain ⟨inside, named, -⟩ := List.findIdx?_eq_some_iff_getElem.mp (columnIndex_ok found)
      have listed : (schema.fields[index], index) ∈ schema.fields.zipIdx :=
        List.mem_zipIdx_iff_getElem?.mpr (List.getElem?_eq_getElem inside)
      exact absurd named (List.find?_eq_none.mp none_ _ listed)

/-- A term that is a bucket of the ordering key by its form resolves to one. -/
theorem GroupKey.bucketTerm_resolves {key : GroupKey} {term : GroupTerm} {schema : Schema}
    {orderingKey : Nat} {name : String}
    (axis : schema.Axis orderingKey) (named : columnIndex schema name = .ok orderingKey)
    (form : key.bucketTerm name = true)
    (resolved : resolveGroupKey schema (some orderingKey) key = .ok term) :
    term = key.term orderingKey := by
  unfold resolveGroupKey at resolved
  obtain ⟨⟨place, field⟩, found, resolved⟩ := except_bind_ok resolved
  have index := Schema.resolve_index found
  cases key with
  | column column =>
    obtain rfl : column = name := by simpa [GroupKey.bucketTerm] using form
    rw [GroupKey.columnName, named] at index
    obtain rfl := Except.ok.inj index
    obtain ⟨declared, here, typed, -⟩ := axis
    obtain rfl := Option.some.inj ((Schema.resolve_declared found).symm.trans here)
    simp only [typed, Option.all_some, decide_true, if_true] at resolved
    exact (Except.ok.inj resolved).symm
  | bucket column divide multiply =>
    simp only at resolved
    split at resolved
    · cases resolved
    · next open_ =>
      simp only [Bool.or_eq_true, decide_eq_true_eq, Option.all_some, Bool.not_eq_true',
        decide_eq_false_iff_not, not_or, not_not] at open_
      rw [← Except.ok.inj resolved, GroupKey.term, open_.2]

/-! ### What an accepted definition is -/

/-- A definition whose plan goes by one bucket of the ordering key, which its view's ordering key
shows. -/
structure Definition.Fits [F64Math F] (definition : Definition F) (source : TableInfo)
    (keys : List GroupKey) (items : List AggItem) (bucket : GroupKey)
    (column : Nat) : Prop where
  plain : definition.plan.Plain
  groups : definition.plan.Groups keys items
  by_ : BucketedBy source.schema source.orderingKey keys items bucket column
  spells : definition.Spells bucket
  named : items.findIdx? (fun item => item.outputName = definition.bucketName) = some column
  widths : ∀ key ∈ keys, key.OfView
  planned : ∃ grouping,
    groupPlan (F := F) source.schema [] (some source.orderingKey) keys items = .ok grouping

structure TableInfo.Keyed (source : TableInfo) : Prop where
  axis : source.schema.Axis source.orderingKey
  named : columnIndex source.schema source.orderingKeyName = .ok source.orderingKey

section Fitting

variable [F64Math F] {registry : Registry F} {lower : String → Except QueryError (Plan F)}
  {sql : String} {source : TableInfo} {width : Nat}
variable {definition : Definition F} {read : ReadShape} {output : QueryOutput F} {plan : Plan F}
  {keys : List GroupKey} {items : List AggItem}
variable {make : Nat → Definition F}

/-- What a definition over one table is, by its width: its own answer by its one bucket, or partial
aggregates by a hidden one. -/
inductive Definition.Made (source : TableInfo) (plan : Plan F) : (Nat → Definition F) → ReadShape → Prop
  | direct {keys : List GroupKey} {items : List AggItem} {bucket : GroupKey} {name : String}
        (projection : plan.projection = .aggregate keys items none)
      (sole : keys.filter (GroupKey.bucketTerm source.orderingKeyName) = [bucket])
        (selected : selectedName bucket items = .ok name) :
      Made source plan (fun _ =>
        { plan, bucketName := name, divide := (bucketArithmetic bucket).1,
          viewScale := (bucketArithmetic bucket).2 }) .direct
  | hidden {keys : List GroupKey} {items : List AggItem} {read : ReadShape}
      (kind : read = .running ∨ read = .cumulative)
      (columns : ∀ key ∈ keys, ∃ name, key = .column name)
        (clear : ∀ item ∈ items, item.outputName ≠ hiddenBucket) :
      Made source plan (fun width => .hidden plan source (Int64.ofNat (max width 1)) keys items) read

/-- A user's column that keeps off the reserved names is not shown as the hidden bucket. -/
theorem key_clear {term : GroupKey} {as : Option String}
    (free : reservedName term.columnName = false) (own : ∀ name ∈ as, reservedName name = false) :
    (AggItem.key term as).outputName ≠ hiddenBucket := by
  cases as with
  | none => exact ne_hiddenBucket (GroupKey.outputName_free free)
  | some name => exact ne_hiddenBucket (own name rfl)

theorem hiddenDefinition_ok {user : Plan F} {width : Int64}
    (found : hiddenDefinition registry user source width keys items = .ok definition) :
    ∀ width', hiddenDefinition registry user source width' keys items = .ok
      (.hidden user source width' keys items) := by
  intro width'
  obtain ⟨output, ran, -⟩ := except_bind_ok found
  rw [hiddenDefinition, ran]
  rfl

/-- An accepted definition over one table is accepted under every width. -/
theorem Definition.of_made
    (found : Definition.of registry lower sql source none width = .ok (definition, read)) :
    ∃ plan make, lower sql = .ok plan ∧ plan.Plain ∧ Definition.Made source plan make read ∧
      ∀ width', Definition.of registry lower sql source none width' = .ok (make width', read) := by
  unfold Definition.of at found ⊢
  obtain ⟨plan, lowers, found⟩ := except_bind_ok found
  obtain ⟨shape, classified, found⟩ := except_bind_ok found
  simp only [lowers, classified, bind, Except.bind]
  obtain ⟨plain, ⟨keys, items, having_, projection, classes⟩ | ⟨items, projection, classes⟩⟩ :=
    eligibleShape_single classified
  · obtain ⟨rfl, ⟨bucket, name, sole, selected, rfl⟩ | ⟨rfl, none_, free⟩⟩ :=
      classifyAggregate_ok classes
    · obtain ⟨-, shape⟩ := Prod.mk.inj (Except.ok.inj found)
      simp only [plain.join, Option.isSome_none, Bool.false_eq_true, if_false] at shape ⊢
      subst shape
      exact ⟨plan, _, except_mapError_ok lowers, plain, .direct projection sole selected, fun _ => rfl⟩
    · obtain ⟨made, hidden, same⟩ := except_map_ok found
      obtain ⟨-, rfl⟩ := Prod.mk.inj same
      refine ⟨plan, _, except_mapError_ok lowers, plain,
        @Definition.Made.hidden F source plan plan.projection.keys
        (runningItems plan.projection.aggItems 0) _ (.inl rfl) (fun key member => ?_)
          (runningItems_clear (fun item member key => ?_) 0), fun width' => ?_⟩
      · rw [projection] at member
        have form := List.filter_eq_nil_iff.mp none_ key member
        cases key with
        | column name => exact ⟨name, rfl⟩
        | bucket name divide multiply => exact absurd rfl form
      · rw [projection] at member
        cases item with
        | call aggregate => cases key
        | key term as =>
          refine key_clear (free _ (List.mem_append_left _ ?_)) fun name own =>
            free _ (List.mem_append_right _ ?_)
          · simp only [Plan.referencedColumns, projection, List.mem_append, List.mem_flatMap]
            exact .inr (.inl (.inr ⟨_, member, by simp [AggItem.columns]⟩))
          · rw [projection]
            exact List.mem_filterMap.mpr ⟨_, member, own⟩
      · rw [synthesizeRunning, hiddenDefinition_ok hidden]
        rfl
  · obtain ⟨rfl, free⟩ := classifyCumulative_ok classes
    obtain ⟨made, hidden, same⟩ := except_map_ok found
    obtain ⟨-, rfl⟩ := Prod.mk.inj same
    refine ⟨plan, _, except_mapError_ok lowers, plain,
      @Definition.Made.hidden F source plan ((partitionColumns plan.projection.planItems).map .column)
        ((partitionColumns plan.projection.planItems).map (fun name => .key (.column name) none) ++
        cumulativeItems plan.projection.planItems 0) _
        (.inr rfl) (fun key member => ?_) (fun item member => ?_), fun width' => ?_⟩
    · obtain ⟨name, -, rfl⟩ := List.mem_map.mp member
      exact ⟨name, rfl⟩
    · rcases List.mem_append.mp member with column | window
      · obtain ⟨name, listed, rfl⟩ := List.mem_map.mp column
        refine key_clear (free _ (List.mem_append_left _ ?_)) fun other none_ => by cases none_
        rw [projection] at listed
        simp only [Plan.referencedColumns, projection, List.mem_append]
        exact .inr (mem_of_partitionColumns listed)
      · exact cumulativeItems_clear _ 0 item window
    · rw [synthesizeCumulative, hiddenDefinition_ok hidden]
      rfl

theorem executePlanEmpty_planned (projection : plan.projection = .aggregate keys items none)
    (ran : executePlanEmpty registry source plan = .ok output) :
    ∃ grouping, groupPlan (F := F) source.schema []
      (some source.orderingKey) keys items = .ok grouping := by
  have ran := except_mapError_ok ran
  unfold executeWithOrderingKey at ran
  split at ran
  · cases ran
  · obtain ⟨views, read, ran⟩ := except_bind_ok ran
    obtain rfl := Except.ok.inj read
    obtain ⟨projected, projects, -⟩ := except_bind_ok ran
    rw [project, projection] at projects
    obtain ⟨grouping, planned, -⟩ := except_bind_ok projects
    exact ⟨grouping, planned⟩

/-- Whether a grouping resolves depends on its terms one by one, and on its calls. -/
theorem groupPlan_retermed {schema : Schema} {views : List (SegmentView F)}
    {orderingKey : Option Nat} {keys' : List GroupKey} {term term' : GroupKey}
    {as : Option String} {grouping : GroupPlan F}
    (planned : groupPlan schema views orderingKey keys (items ++ [.key term as]) = .ok grouping)
    (terms : ∀ key ∈ keys', ∃ resolved, resolveGroupKey schema orderingKey key = .ok resolved) :
    ∃ grouping', groupPlan (F := F) schema views orderingKey keys'
      (items ++ [.key term' as]) = .ok grouping' := by
  obtain ⟨resolved, together⟩ : ∃ resolved, keys'.mapM (resolveGroupKey schema orderingKey) =
      .ok resolved := by
    induction keys' with
    | nil => exact ⟨[], rfl⟩
    | cons key keys' ih =>
      obtain ⟨first, found⟩ := terms key List.mem_cons_self
      obtain ⟨rest, later⟩ := ih fun other member => terms other (List.mem_cons_of_mem _ member)
      exact ⟨first :: rest, by rw [List.mapM_cons, found, later]; rfl⟩
  unfold groupPlan at planned ⊢
  obtain ⟨_, _, planned⟩ := except_bind_ok planned
  obtain ⟨arguments, found, planned⟩ := except_bind_ok planned
  obtain ⟨template, made, planned⟩ := except_bind_ok planned
  simp only [List.filterMap_append, List.filterMap_cons_none, List.filterMap_nil,
    List.append_nil] at found made ⊢
  simp only [together, found, made, bind, Except.bind]
  exact ⟨_, rfl⟩

def GroupKey.Wide : GroupKey → Prop
  | column _ => True
  | bucket _ divide _ => 1 ≤ divide

/-- What the checks of a definition leave to its author. -/
structure Plan.Clear (plan : Plan F) (source : TableInfo) : Prop where
  wide : ∀ key ∈ plan.projection.keys, key.Wide
  kernels : ∀ test ∈ plan.predicate, test.usesRegistered = false
  /-- No two columns are shown under one name, where the view stores its own answer. -/
  named : (∃ key ∈ plan.projection.keys, key.bucketTerm source.orderingKeyName = true) →
    (plan.projection.aggItems.map AggItem.outputName).Nodup

theorem resolved_of_planned (keyed : source.Keyed) {bucket : GroupKey} (listed : bucket ∈ keys)
    (form : bucket.bucketTerm source.orderingKeyName = true)
    {grouping : GroupPlan F}
    (planned : groupPlan (F := F) source.schema [] (some source.orderingKey) keys items =
      .ok grouping) :
    resolveGroupKey source.schema (some source.orderingKey) bucket =
      .ok (bucket.term source.orderingKey) := by
  obtain ⟨resolved, -, -⟩ := groupPlan_ok planned
  obtain ⟨place, here⟩ := List.mem_iff_getElem?.mp listed
  obtain ⟨term, -, same⟩ := forall₂_get resolved here
  rw [same, GroupKey.bucketTerm_resolves keyed.axis keyed.named form same]

omit [F64Math F] in
theorem hidden_resolves (keyed : source.Keyed) (width : Int64) :
    resolveGroupKey source.schema (some source.orderingKey)
      (source.hidden width) = .ok ((source.hidden width).term source.orderingKey) := by
  obtain ⟨field, declared, typed, -⟩ := keyed.axis
  have found := Schema.resolve_of_index keyed.named declared
  rw [TableInfo.hidden, resolveGroupKey, GroupKey.columnName, found]
  simp only [bind, Except.bind, typed]
  rw [if_neg (by simp)]
  rfl

theorem one_le_width (narrow : width < 2 ^ 63) : (1 : Int64) ≤ Int64.ofNat (max width 1) := by
  rw [Int64.le_iff_toInt_le, Int64.toInt_ofNat_of_lt (by omega)]
  have one : (1 : Int64).toInt = 1 := by decide
  omega

namespace Definition.Made

/-- That the plan of a definition resolves does not depend on the width. -/
theorem planned (made : Definition.Made source plan make read) (keyed : source.Keyed)
    (ran : executePlanEmpty registry source (make width).plan = .ok output)
    (width' : Nat) : ∃ keys items grouping, (make width').plan.projection = .aggregate keys items none ∧
      groupPlan (F := F) source.schema [] (some source.orderingKey) keys items = .ok grouping := by
  cases made with
  | @direct keys items bucket name projection sole selected =>
    obtain ⟨grouping, planned⟩ := executePlanEmpty_planned projection ran
    exact ⟨keys, items, grouping, projection, planned⟩
  | @hidden keys items read kind columns clear =>
    obtain ⟨grouping, planned⟩ := executePlanEmpty_planned rfl ran
    obtain ⟨resolved, -, -⟩ := groupPlan_ok planned
    have terms : ∀ key ∈ keys ++ [source.hidden (Int64.ofNat (max width' 1))],
        ∃ term, resolveGroupKey source.schema (some source.orderingKey) key = .ok term := by
      intro key member
      rcases List.mem_append.mp member with own | own
      · obtain ⟨place, here⟩ :=
          List.mem_iff_getElem?.mp
          (List.mem_append_left [source.hidden (Int64.ofNat (max width 1))] own)
        obtain ⟨term, -, same⟩ := forall₂_get resolved here
        exact ⟨term, same⟩
      · obtain rfl := List.mem_singleton.mp own
        exact ⟨_, hidden_resolves keyed _⟩
    obtain ⟨grouping', again⟩ := groupPlan_retermed planned terms
    exact ⟨_, _, grouping', rfl, again⟩

omit [F64Math F] in
theorem shown (made : Definition.Made source plan make read) (width width' : Nat) :
    (make width').bucketName = (make width).bucketName ∧
    (make width').plan.projection.aggItems.map AggItem.outputName =
    (make width).plan.projection.aggItems.map AggItem.outputName := by
  cases made with
  | direct _ _ _ => exact ⟨rfl, rfl⟩
  | hidden _ _ _ =>
      exact ⟨rfl, by simp [Definition.hidden, internalPlan, Projection.aggItems, AggItem.outputName]⟩

theorem fits (made : Definition.Made source plan make read) (keyed : source.Keyed)
    (plain : plan.Plain) (clear : plan.Clear source)
    (narrow : width < 2 ^ 63) {grouping : GroupPlan F}
    (projection : (make width).plan.projection = .aggregate keys items none)
    (planned : groupPlan (F := F) source.schema [] (some source.orderingKey) keys items =
      .ok grouping) :
    ∃ bucket column, (make width).Fits source keys items bucket column := by
  cases made with
  | @direct keys' items' bucket name own sole selected =>
    obtain ⟨rfl, rfl, -⟩ := Projection.aggregate.inj (own.symm.trans projection)
    obtain ⟨same, item, found, shown⟩ := selectedName_ok selected
    obtain ⟨listed, form⟩ :=
      List.mem_filter.mp (show bucket ∈ keys'.filter (GroupKey.bucketTerm source.orderingKeyName) by
        rw [sole]
        simp)
    have ofView : bucket.OfView := by
      cases bucket with
      | column column => trivial
      | bucket column divide multiply =>
        have wide : (GroupKey.bucket column divide multiply).Wide :=
          clear.wide _ (by rw [own]; exact listed)
        refine ⟨wide, fun factor times => ?_⟩
        obtain rfl : multiply = some factor := times
        simpa [GroupKey.sameWidth] using same
    have inside := List.mem_of_find?_eq_some found
    have unique := clear.named ⟨bucket, by rw [own]; exact listed, form⟩
    rw [own] at unique
    cases first : items'.findIdx? (fun item => item.outputName = name) with
    | none => exact absurd shown (by simpa using List.findIdx?_eq_none_iff.mp first item inside)
    | some column =>
      obtain ⟨less, here, -⟩ := List.findIdx?_eq_some_iff_getElem.mp first
      have alone : items'[column] = item :=
        List.inj_on_of_nodup_map unique (List.getElem_mem less) inside
          ((by simpa using here : items'[column].outputName = name).trans shown.symm)
      have term : ∃ as, items'[column]? = some (.key bucket as) := by
        rw [List.getElem?_eq_getElem less, alone]
        have selects := List.find?_some found
        cases item with
        | key term as => exact ⟨as, by rw [show term = bucket by simpa [AggItem.selects] using selects]⟩
        | call aggregate => cases selects
      refine ⟨bucket, column, plain,
        ⟨projection, List.ne_nil_of_mem inside, plain.distinct, plain.orderBy, plain.limit,
        plain.offset, clear.kernels⟩,
        ⟨ofView, listed, term, resolved_of_planned keyed listed form planned⟩, ⟨ofView, rfl⟩, first,
        fun key member => ?_, grouping, planned⟩
      cases key with
      | column name => trivial
      | bucket name divide multiply =>
        have only : GroupKey.bucket name divide multiply ∈ [bucket] :=
          sole ▸ List.mem_filter.mpr ⟨member, rfl⟩
        exact List.mem_singleton.mp only ▸ ofView
  | @hidden keys' items' read kind columns names =>
    obtain ⟨rfl, rfl, -⟩ := Projection.aggregate.inj projection
    have wide := one_le_width narrow
    have ofView : (source.hidden (Int64.ofNat (max width 1))).OfView :=
      ⟨wide, fun factor absent => by cases absent⟩
    refine ⟨source.hidden (Int64.ofNat (max width 1)), items'.length,
      ⟨rfl, rfl, rfl, rfl, rfl, rfl⟩, ⟨rfl, by simp, rfl, rfl, rfl, rfl, clear.kernels⟩,
      ⟨ofView, by simp, ⟨some hiddenBucket, by simp⟩, hidden_resolves keyed _⟩, ⟨ofView, rfl⟩, ?_,
      fun key member => ?_, grouping, planned⟩
    · have none_ : items'.findIdx? (fun item => item.outputName = hiddenBucket) = none := by
        rw [List.findIdx?_eq_none_iff]
        intro item member
        simpa using names item member
      change (items' ++ [_]).findIdx? (fun item : AggItem => item.outputName = hiddenBucket) = _
      rw [List.findIdx?_append, none_]
      simp [AggItem.outputName]
    · rcases List.mem_append.mp member with own | own
      · obtain ⟨name, rfl⟩ := columns key own
        trivial
      · exact List.mem_singleton.mp own ▸ ofView

end Definition.Made

/-- An accepted definition over one table goes by one bucket of the ordering key, whatever its
width: the one it selects, or the hidden one. The width does not show in the names. -/
theorem Definition.of_fits (keyed : source.Keyed)
    (clear : ∀ plan, lower sql = .ok plan → plan.Clear source)
    (found : Definition.of registry lower sql source none width = .ok (definition, read))
    (ran : executePlanEmpty registry source definition.plan = .ok output) :
    read ≠ .joined ∧ ∀ width', width' < 2 ^ 63 → ∃ definition' keys items bucket column,
      Definition.of registry lower sql source none width' = .ok (definition', read) ∧
      definition'.Fits source keys items bucket column ∧
        definition'.bucketName = definition.bucketName ∧
        items.map AggItem.outputName = definition.plan.projection.aggItems.map AggItem.outputName := by
  obtain ⟨plan, make, lowers, plain, made, again⟩ := Definition.of_made found
  obtain ⟨rfl, -⟩ := Prod.mk.inj (Except.ok.inj ((again width).symm.trans found))
  refine ⟨?_, fun width' narrow => ?_⟩
  · cases made with
    | direct _ _ _ => decide
    | hidden kind _ _ => rcases kind with rfl | rfl <;> decide
  · obtain ⟨keys, items, grouping, projection, planned⟩ := made.planned keyed ran width'
    obtain ⟨bucket, column, fits⟩ := made.fits keyed plain (clear plan lowers) narrow projection planned
    obtain ⟨name, names⟩ := made.shown width width'
    rw [projection] at names
    exact ⟨_, keys, items, bucket, column, again width', fits, name, names⟩

end Fitting

end TallyDB
