import TallyDB.Logic.Except
import TallyDB.QueryLite.Group
import TallyDB.StorageLite.Built
import TallyDB.StorageLite.Decoded

/-!
# Streaming against hashing

Streaming emits the groups of the hash path exactly where no group key comes again after its
bucket was left. A bucket that is computed without overflow is monotone in the ordering key,
and then no key does.
-/

namespace TallyDB

variable {F : Type}

/-! ### Order -/

/-- What storage says of a segment's order is so. -/
structure Segment.Sorted (segment : Segment F) : Prop where
  full : (orderingClocks (segment.batch.column segment.orderingKey)).length = segment.numRows
  sorted : segment.ordered = true →
    (orderingClocks (segment.batch.column segment.orderingKey)).Pairwise (· ≤ ·)

/-- The clocks of a stored segment are its rows' ordering values. -/
theorem orderingClocks_stored [F64 F] {segment : Segment F} {schema : Schema}
    (stored : segment.Stored schema) :
    orderingClocks (segment.batch.column segment.orderingKey) = segment.rows.map
      (orderingValue segment.orderingKey) := by
  obtain ⟨field, found, typed, whole⟩ := stored.axis
  obtain ⟨place, at_⟩ := List.getElem?_eq_some_iff.mp found
  have inside : segment.orderingKey < segment.batch.columns.length := stored.binds.length_eq ▸ place
  have binds : (segment.batch.column segment.orderingKey).Binds segment.numRows field := by
    have pair := stored.binds.get place inside
    rw [RecordBatch.column, List.getD_eq_getElem _ _ inside]
    simpa [at_] using pair
  have cell (row : Nat) : (segment.row row)[segment.orderingKey]? =
      some (cellValue (segment.batch.column segment.orderingKey) row) := by
    rw [Segment.row, List.getElem?_map, List.getElem?_eq_getElem inside, RecordBatch.column,
      List.getD_eq_getElem _ _ inside]
    rfl
  have typed := binds.typed.trans typed
  have full := binds.length
  have nulls := binds.validity
  cases column : segment.batch.column segment.orderingKey with
  | i64 values validity =>
    rw [column] at full nulls
    have valid : validity = none := by
      cases validity with
      | none => rfl
      | some bits => exact absurd (nulls bits rfl).2 (by simp [whole])
    subst valid
    have count : values.length = segment.numRows := full
    change values = _
    refine List.ext_getElem (by simp [Segment.rows, count]) fun row low high => ?_
    simp only [Segment.rows, List.getElem_map, List.getElem_range, orderingValue, cell, column]
    simp [cellValue, Column.isValid, Column.validity, Bitmap.validAt, List.getD_eq_getElem?_getD, low]
  | f64 values validity => rw [column] at typed; cases typed
  | key codes validity dictionary => rw [column] at typed; cases typed

theorem Segment.Stored.toSorted [F64 F] {segment : Segment F} {schema : Schema}
    (stored : segment.Stored schema) : segment.Sorted where
  full := by simp [orderingClocks_stored stored, Segment.rows]
  sorted flag := by
    rw [orderingClocks_stored stored]
    exact stored.sorted flag

def SegmentView.liveClocks (view : SegmentView F) (index : Nat) : List Int64 :=
  view.liveIndices.map fun row => (orderingClocks (view.segment.batch.column index)).getD row 0

theorem SegmentView.liveIndices_sorted (view : SegmentView F) : view.liveIndices.Pairwise (· < ·) :=
  List.pairwise_lt_range.filter _

theorem SegmentView.liveIndices_lt {view : SegmentView F} {row : Nat}
    (live : row ∈ view.liveIndices) : row < view.segment.numRows :=
  List.mem_range.mp (List.mem_filter.mp live).1

theorem pairwise_getD {values : List Int64} (sorted : values.Pairwise (· ≤ ·)) {rows : List Nat}
    (increasing : rows.Pairwise (· < ·))
    (inside : ∀ row ∈ rows, row < values.length) : (rows.map (values.getD · 0)).Pairwise (· ≤ ·) := by
  rw [List.pairwise_map]
  refine increasing.imp_of_mem fun {a b} first second less => ?_
  have low := inside a first
  have high := inside b second
  simp only [List.getD_eq_getElem?_getD, List.getElem?_eq_getElem low,
    List.getElem?_eq_getElem high, Option.getD_some]
  exact List.pairwise_iff_getElem.mp sorted a b low high less

theorem liveOrderingBounds_clocks (view : SegmentView F) :
    liveOrderingBounds view = match view.liveClocks view.segment.orderingKey with
      | [] => none
      | first :: rest => some (first, rest.getLastD first) := by
  unfold liveOrderingBounds SegmentView.liveClocks
  cases view.liveIndices with
  | nil => rfl
  | cons first rest =>
    simp only [List.map_cons, Option.some.injEq, Prod.mk.injEq, true_and]
    cases rest using List.reverseRecOn with
    | nil => rfl
    | append_singleton rest last => simp

/-- Where no disorder is found, the live clocks never decrease, nor fall below what came before. -/
theorem ordered_after {views : List (SegmentView F)} {orderingKey : Nat} {previous : Option Int64}
    (sound : ∀ view ∈ views, view.segment.Sorted)
    (fine : orderingProblemAfter orderingKey previous views = none) :
    (views.flatMap (·.liveClocks orderingKey)).Pairwise (· ≤ ·) ∧
      ∀ bound ∈ previous, ∀ clock ∈ views.flatMap (·.liveClocks orderingKey), bound ≤ clock := by
  induction views generalizing previous with
  | nil => simp
  | cons view rest ih =>
    have here := sound view List.mem_cons_self
    have later := fun other member => sound other (List.mem_cons_of_mem _ member)
    rw [orderingProblemAfter] at fine
    split at fine
    · cases fine
    next sameKey =>
    have sameKey : orderingKey = view.segment.orderingKey := not_not.mp sameKey
    split at fine
    · cases fine
    next orderly =>
    have clocks : (view.liveClocks orderingKey).Pairwise (· ≤ ·) := by
      rw [sameKey]
      refine pairwise_getD (here.sorted (by simpa using orderly)) view.liveIndices_sorted
        fun row live => ?_
      rw [here.full]
      exact SegmentView.liveIndices_lt live
    rw [liveOrderingBounds_clocks, ← sameKey] at fine
    rw [List.flatMap_cons]
    cases found : view.liveClocks orderingKey with
    | nil =>
      rw [found] at fine
      simpa using ih later fine
    | cons first others =>
      rw [found] at fine clocks
      simp only at fine
      split at fine
      · cases fine
      next above =>
      obtain ⟨sorted, bounded⟩ := ih later fine
      have last_ge : ∀ clock ∈ first :: others, clock ≤ others.getLastD first := by
        intro clock member
        cases others using List.reverseRecOn with
        | nil => simp_all
        | append_singleton front last =>
          simp only [List.getLastD_concat]
          rcases List.mem_cons.mp member with rfl | member
          · exact List.rel_of_pairwise_cons clocks (by simp)
          · rcases List.mem_append.mp member with member | member
            · exact (List.pairwise_append.mp (List.pairwise_cons.mp clocks).2).2.2 clock
                member last (by simp)
            · exact Int64.le_of_eq (List.mem_singleton.mp member)
      have first_le : ∀ clock ∈ first :: others, first ≤ clock := by
        intro clock member
        rcases List.mem_cons.mp member with rfl | member
        · exact Int64.le_refl _
        · exact List.rel_of_pairwise_cons clocks member
      refine ⟨List.pairwise_append.mpr ⟨clocks, sorted, fun a member b after => ?_⟩,
        fun bound before clock member => ?_⟩
      · exact Int64.le_trans (last_ge a member) (bounded _ rfl b after)
      · have floor : bound ≤ first := by
          rw [Option.mem_def.mp before] at above
          simpa using above
        rcases List.mem_append.mp member with member | member
        · exact Int64.le_trans floor (first_le clock member)
        · exact Int64.le_trans floor
            (Int64.le_trans (last_ge first (by simp)) (bounded _ rfl clock member))

/-! ### The rows of a grouping -/

def GroupTerm.bucketAt (clock : Int64) : GroupTerm → GroupCode
  | .label _ => .label none
  | .bucket _ divide multiply => .bucket (bucketValue divide multiply clock)

namespace GroupPlan

section Rows

variable [F64Math F]

def rows (plan : GroupPlan F) : List (SegmentView F) → List Dictionary →
    List (List GroupCode × (List (Accumulator F) → Except QueryError (List (Accumulator F))))
  | [], _ => []
  | view :: rest, unified =>
    view.liveIndices.map
      (plan.row view.segment.batch (remaps view.segment.batch plan.terms unified).1) ++
      plan.rows rest (remaps view.segment.batch plan.terms unified).2

def unifiedAfter (plan : GroupPlan F) : List (SegmentView F) → List Dictionary → List Dictionary
  | [], unified => unified
  | view :: rest, unified => plan.unifiedAfter rest (remaps view.segment.batch plan.terms unified).2

/-- A full group key comes again after its bucket was left. -/
def KeyReturns (plan : GroupPlan F) (views : List (SegmentView F)) : Prop :=
  GroupBy.Returns plan.bucketOf ((plan.rows views (plan.terms.map fun _ => .empty)).map Prod.fst)

/-- The same grouping with every group open to the end. -/
def hashing (plan : GroupPlan F) : GroupPlan F := { plan with streaming := false }

theorem takeViews_eq (plan : GroupPlan F) (views : List (SegmentView F)) (unified : List Dictionary)
    (state : Grouping F) :
    plan.takeViews views unified state =
      (GroupBy.Groups.run plan.bucketOf closeGroup plan.streaming plan.template
        (plan.rows views unified) state).map
        (·, plan.unifiedAfter views unified) := by
  induction views generalizing unified state with
  | nil => rfl
  | cons view rest ih =>
    have here : view.liveIndices.foldlM
      (plan.takeRow view.segment.batch (remaps view.segment.batch plan.terms unified).1) state =
        GroupBy.Groups.run plan.bucketOf closeGroup plan.streaming plan.template
          (view.liveIndices.map
            (plan.row view.segment.batch (remaps view.segment.batch plan.terms unified).1)) state := by
      rw [GroupBy.Groups.run, List.foldlM_map]
      rfl
    rw [rows, GroupBy.run_append, ← here]
    simp only [takeViews]
    cases view.liveIndices.foldlM
      (plan.takeRow view.segment.batch (remaps view.segment.batch plan.terms unified).1) state with
    | error e => rfl
    | ok state => exact ih _ state

theorem groups_eq (plan : GroupPlan F) (views : List (SegmentView F)) :
    plan.groups views = ((GroupBy.Groups.run plan.bucketOf closeGroup plan.streaming plan.template
      (plan.rows views (plan.terms.map fun _ => .empty)) plan.start).map
      (GroupBy.Groups.emit closeGroup)).map
        (·, plan.unifiedAfter views (plan.terms.map fun _ => .empty)) := by
  rw [groups, takeViews_eq]
  cases GroupBy.Groups.run plan.bucketOf closeGroup plan.streaming plan.template
    (plan.rows views (plan.terms.map fun _ => .empty)) plan.start <;> rfl

theorem hashing_rows (plan : GroupPlan F) (views : List (SegmentView F)) (unified : List Dictionary) :
    plan.hashing.rows views unified = plan.rows views unified := by
  induction views generalizing unified with
  | nil => rfl
  | cons view rest ih =>
    rw [rows, rows]
    exact congrArg _ (ih _)

omit [F64Math F] in
theorem hashing_unifiedAfter (plan : GroupPlan F) (views : List (SegmentView F))
    (unified : List Dictionary) :
    plan.hashing.unifiedAfter views unified = plan.unifiedAfter views unified := by
  induction views generalizing unified with
  | nil => rfl
  | cons view rest ih => exact ih _

theorem hashing_groups (plan : GroupPlan F) (views : List (SegmentView F)) :
    plan.hashing.groups views = ((GroupBy.Groups.run plan.bucketOf closeGroup false plan.template
      (plan.rows views (plan.terms.map fun _ => .empty)) plan.start).map
      (GroupBy.Groups.emit closeGroup)).map
        (·, plan.unifiedAfter views (plan.terms.map fun _ => .empty)) := by
  rw [groups_eq, hashing_rows, hashing_unifiedAfter]
  rfl

variable {plan : GroupPlan F} {views : List (SegmentView F)}

omit [F64Math F] in
theorem start_of_terms (bucketed : plan.terms.any GroupTerm.isBucket = true) :
    plan.start = .start [] := by
  have filled : plan.terms.isEmpty = false := by
    cases terms : plan.terms with
    | nil => rw [terms] at bucketed; cases bucketed
    | cons _ _ => rfl
  rw [start, filled]
  rfl

theorem streams_as_hashed (streaming : plan.streaming = true)
    (bucketed : plan.terms.any GroupTerm.isBucket = true)
    (fine : ¬ plan.KeyReturns views) : plan.groups views = plan.hashing.groups views := by
  rw [groups_eq, hashing_groups, streaming, start_of_terms bucketed]
  congr 1
  exact GroupBy.Streams.start.emits rfl rfl (by simpa [KeyReturns] using fine)

theorem streams_iff (streaming : plan.streaming = true)
    (bucketed : plan.terms.any GroupTerm.isBucket = true)
    {hashed : List (ClosedGroup F) × List Dictionary}
    (hashes : plan.hashing.groups views = .ok hashed) :
    plan.groups views = .ok hashed ↔ ¬ plan.KeyReturns views := by
  refine ⟨fun same => ?_, fun fine => (streams_as_hashed streaming bucketed fine).trans hashes⟩
  rw [hashing_groups, start_of_terms bucketed] at hashes
  rw [groups_eq, streaming, start_of_terms bucketed] at same
  cases folded : GroupBy.Groups.run plan.bucketOf closeGroup false plan.template
      (plan.rows views (plan.terms.map fun _ => .empty)) (.start []) with
  | error e => rw [folded] at hashes; cases hashes
  | ok plain =>
    rw [folded] at hashes
    refine (GroupBy.streaming_iff Prod.fst (fun group : OpenGroup F =>
      show (closeGroup group).1 = group.1 from rfl) folded).mp ?_
    cases streamed : GroupBy.Groups.run plan.bucketOf closeGroup true plan.template
        (plan.rows views (plan.terms.map fun _ => .empty)) (.start []) with
    | error e => rw [streamed] at same; cases same
    | ok state =>
      rw [streamed, ← hashes] at same
      exact congrArg Except.ok (congrArg Prod.fst (Except.ok.inj same))

/-! ### Exact buckets -/

def bucketsAt (plan : GroupPlan F) (clock : Int64) : List GroupCode :=
  (plan.terms.filter GroupTerm.isBucket).map (·.bucketAt clock)

omit [F64Math F] in
theorem bucketOf_groupKey {terms : List GroupTerm} {orderingKey : Nat}
    (axis : ∀ index divide multiply, .bucket index divide multiply ∈ terms → index = orderingKey)
    {batch : RecordBatch F} {codes : List (List Nat)}
    (sized : codes.length = terms.length) (row : Nat) :
    (((groupKey batch terms codes row).zip terms).filter (·.2.isBucket)).map Prod.fst =
      (terms.filter GroupTerm.isBucket).map
      (·.bucketAt ((orderingClocks (batch.column orderingKey)).getD row 0)) := by
  induction terms generalizing codes with
  | nil => simp [groupKey]
  | cons term terms ih =>
    cases codes with
    | nil => cases sized
    | cons code codes =>
      have rest := ih (fun index divide multiply member =>
        axis index divide multiply (List.mem_cons_of_mem _ member))
        (Nat.succ.inj sized)
      rw [groupKey, List.zipWith_cons_cons, List.zip_cons_cons, ← groupKey]
      cases term with
      | label index =>
        rw [List.filter_cons_of_neg (by simp [GroupTerm.isBucket]), List.filter_cons_of_neg (by
            simp [GroupTerm.isBucket]), rest]
      | bucket index divide multiply =>
        rw [List.filter_cons_of_pos (by simp [GroupTerm.isBucket]), List.filter_cons_of_pos (by
            simp [GroupTerm.isBucket]),
          List.map_cons, List.map_cons, rest]
        simp only [GroupTerm.code, GroupTerm.bucketAt, axis index divide multiply List.mem_cons_self]

omit [F64Math F] in
theorem remaps_length (batch : RecordBatch F) (terms : List GroupTerm) (unified : List Dictionary)
    (sized : unified.length = terms.length) :
    (remaps batch terms unified).1.length = terms.length ∧
    (remaps batch terms unified).2.length = terms.length := by
  simp [remaps, sized]

theorem rows_buckets {orderingKey : Nat}
    (axis : ∀ index divide multiply, .bucket index divide multiply ∈ plan.terms → index = orderingKey)
    (unified : List Dictionary) (sized : unified.length = plan.terms.length) :
    (plan.rows views unified).map (fun row => plan.bucketOf row.1) =
      (views.flatMap (·.liveClocks orderingKey)).map plan.bucketsAt := by
  induction views generalizing unified with
  | nil => rfl
  | cons view rest ih =>
    obtain ⟨codes, spaces⟩ := remaps_length view.segment.batch plan.terms unified sized
    rw [rows, List.map_append, ih _ spaces, List.flatMap_cons, List.map_append,
      SegmentView.liveClocks, List.map_map, List.map_map]
    congr 1
    exact List.map_congr_left fun row _ => bucketOf_groupKey axis codes row

end Rows

end GroupPlan

namespace GroupTerm

/-- A bucket of an ordering-key value is the number that its arithmetic means. -/
def ExactAt (divide : Int64) (multiply : Option Int64) (clock : Int64) : Prop :=
  ∀ factor ∈ multiply, (clock / divide * factor).toInt = (clock / divide).toInt * factor.toInt

theorem div_mono {divide a b : Int64} (positive : 0 < divide) (le : a ≤ b) :
    a / divide ≤ b / divide := by
  have nonneg : (0 : Int) < divide.toInt := by simpa [Int64.lt_iff_toInt_lt] using positive
  have notMinus : divide ≠ -1 := fun same => by rw [same] at nonneg; exact absurd nonneg (by decide)
  rw [Int64.le_iff_toInt_le, Int64.toInt_div_of_ne_right _ _ notMinus,
    Int64.toInt_div_of_ne_right _ _ notMinus]
  exact Int.tdiv_le_tdiv nonneg (Int64.le_iff_toInt_le.mp le)

/-- A bucket is monotone where it is computed without overflow. -/
theorem bucketValue_mono {divide a b : Int64} {multiply : Option Int64} (positive : 0 < divide)
    (times : ∀ factor ∈ multiply, 0 < factor)
    (exactLeft : ExactAt divide multiply a) (exactRight : ExactAt divide multiply b) (le : a ≤ b) :
    bucketValue divide multiply a ≤ bucketValue divide multiply b := by
  cases multiply with
  | none => exact div_mono positive le
  | some factor =>
    simp only [bucketValue]
    rw [Int64.le_iff_toInt_le, exactLeft factor rfl, exactRight factor rfl]
    have above : (0 : Int) ≤ factor.toInt :=
      (by simpa [Int64.lt_iff_toInt_lt] using times factor rfl : (0 : Int) < factor.toInt).le
    exact Int.mul_le_mul_of_nonneg_right (Int64.le_iff_toInt_le.mp (div_mono positive le)) above

end GroupTerm

namespace GroupPlan

variable [F64Math F] {plan : GroupPlan F} {views : List (SegmentView F)}

/-- Over ordered rows no key returns where every bucket is computed without overflow. -/
theorem not_returns_of_exact {orderingKey : Nat}
    (axis : ∀ index divide multiply, .bucket index divide multiply ∈ plan.terms → index = orderingKey)
    (positive : ∀ index divide multiply, .bucket index divide multiply ∈ plan.terms → 0 < divide ∧
      ∀ factor ∈ multiply, 0 < factor)
    (ordered : (views.flatMap (·.liveClocks orderingKey)).Pairwise (· ≤ ·))
    (exact_ : ∀ index divide multiply, .bucket index divide multiply ∈ plan.terms →
      ∀ clock ∈ views.flatMap (·.liveClocks orderingKey), GroupTerm.ExactAt divide multiply clock) :
    ¬ plan.KeyReturns views := by
  rintro ⟨key, other, within, differs⟩
  have buckets := (within.map plan.bucketOf)
  rw [List.map_map, show plan.bucketOf ∘ Prod.fst = fun row => plan.bucketOf row.1 from rfl,
    rows_buckets axis _ (by simp)] at buckets
  obtain ⟨clocks, inside, same⟩ := List.sublist_map_iff.mp buckets
  obtain ⟨a, b, c, rfl⟩ : ∃ a b c, clocks = [a, b, c] :=
    List.length_eq_three.mp (by simpa using (congrArg List.length same).symm)
  simp only [List.map_cons, List.map_nil, List.cons.injEq, and_true] at same
  obtain ⟨first, middle, last⟩ := same
  have sorted := ordered.sublist inside
  simp only [List.pairwise_cons, List.mem_cons, List.not_mem_nil, or_false] at sorted
  have ab : a ≤ b := sorted.1 b (.inl rfl)
  have bc : b ≤ c := sorted.2.1 c rfl
  refine differs (middle.trans (Eq.trans ?_ first.symm))
  have ends := List.map_inj_left.mp (first.symm.trans last)
  refine List.map_congr_left fun term member => ?_
  have closed := ends term member
  cases term with
  | label index => rfl
  | bucket index divide multiply =>
    have member := (List.mem_filter.mp member).1
    obtain ⟨above, times⟩ := positive index divide multiply member
    have exactly := exact_ index divide multiply member
    have low := GroupTerm.bucketValue_mono above times (exactly a (inside.subset (by simp)))
      (exactly b (inside.subset (by simp))) ab
    have high := GroupTerm.bucketValue_mono above times (exactly b (inside.subset (by simp)))
      (exactly c (inside.subset (by simp))) bc
    simp only [GroupTerm.bucketAt, GroupCode.bucket.injEq] at closed ⊢
    exact Int64.le_antisymm (closed ▸ high) low

end GroupPlan

/-! ### The executor's grouping -/

section Planned

variable [F64Math F] {schema : Schema} {views : List (SegmentView F)} {orderingKey : Nat}
  {keys : List GroupKey} {items : List AggItem}
  {plan : GroupPlan F}

theorem resolveGroupKey_bucket {key : GroupKey} {index : Nat} {divide : Int64} {multiply : Option Int64}
    (resolved : resolveGroupKey schema (some orderingKey) key = .ok (.bucket index divide multiply)) :
    index = orderingKey ∧
    ((divide = 1 ∧ multiply = none) ∨ ∃ name, key = .bucket name divide multiply) := by
  unfold resolveGroupKey at resolved
  obtain ⟨⟨place, field⟩, _, resolved⟩ := except_bind_ok resolved
  cases key with
  | column name =>
    simp only at resolved
    split at resolved
    · cases resolved
    · split at resolved
      · next axis =>
        obtain ⟨rfl, rfl, rfl⟩ := GroupTerm.bucket.inj (Except.ok.inj resolved)
        exact ⟨by simpa using (of_decide_eq_true axis).symm, .inl ⟨rfl, rfl⟩⟩
      · cases resolved
    · cases resolved
  | bucket name divide' multiply' =>
    simp only at resolved
    split at resolved
    · cases resolved
    · next axis =>
      obtain ⟨rfl, rfl, rfl⟩ := GroupTerm.bucket.inj (Except.ok.inj resolved)
      simp only [Bool.or_eq_true, decide_eq_true_eq, Option.all_some, Bool.not_eq_true',
        decide_eq_false_iff_not, not_or, not_not] at axis
      exact ⟨axis.2.symm, .inr ⟨name, rfl⟩⟩

/-- A plan's terms are those its keys resolve to, and it streams where it may. -/
theorem groupPlan_ok (planned : groupPlan schema views (some orderingKey) keys items = .ok plan) :
    List.Forall₂ (fun key term => resolveGroupKey schema (some orderingKey) key = .ok term)
      keys plan.terms ∧
      plan.orderingKey = some orderingKey ∧
      plan.streaming = (plan.terms.any GroupTerm.isBucket &&
        (orderingProblem views orderingKey).isNone) := by
  unfold groupPlan at planned
  obtain ⟨terms, resolved, planned⟩ := except_bind_ok planned
  obtain ⟨arguments, _, planned⟩ := except_bind_ok planned
  obtain ⟨template, _, planned⟩ := except_bind_ok planned
  rw [← Except.ok.inj planned]
  exact ⟨except_mapM_ok resolved, rfl, rfl⟩

/-- Over a snapshot in order the live clocks never decrease, and streaming emits what hashing
emits exactly where no group key comes again after its bucket was left. -/
theorem streaming_groups_iff (planned : groupPlan schema views (some orderingKey) keys items = .ok plan)
    (bucketed : plan.terms.any GroupTerm.isBucket = true) (sound : ∀ view ∈ views, view.segment.Sorted)
    (ordered : orderingProblem views orderingKey = none) :
    plan.streaming = true ∧ (views.flatMap (·.liveClocks orderingKey)).Pairwise (· ≤ ·) ∧
      (¬ plan.KeyReturns views → plan.groups views = plan.hashing.groups views) ∧
      ∀ hashed, plan.hashing.groups views = .ok hashed →
      (plan.groups views = .ok hashed ↔ ¬ plan.KeyReturns views) := by
  obtain ⟨_, _, streams⟩ := groupPlan_ok planned
  have streaming : plan.streaming = true := by rw [streams, bucketed, ordered]; rfl
  exact ⟨streaming, (ordered_after sound ordered).1, GroupPlan.streams_as_hashed streaming bucketed,
    fun hashed hashes => GroupPlan.streams_iff streaming bucketed hashes⟩

/-- Positive widths and factors suffice where no bucket of a live clock overflows. -/
theorem exact_buckets_stream (planned : groupPlan schema views (some orderingKey) keys items = .ok plan)
    (bucketed : plan.terms.any GroupTerm.isBucket = true) (sound : ∀ view ∈ views, view.segment.Sorted)
    (ordered : orderingProblem views orderingKey = none)
    (accepted : ∀ name divide multiply, .bucket name divide multiply ∈ keys → 0 < divide ∧
      (∀ factor ∈ multiply, 0 < factor) ∧
      ∀ clock ∈ views.flatMap (·.liveClocks orderingKey), GroupTerm.ExactAt divide multiply clock) :
    plan.groups views = plan.hashing.groups views := by
  obtain ⟨resolved, _, streams⟩ := groupPlan_ok planned
  have fromKey {index : Nat} {divide : Int64} {multiply : Option Int64}
    (member : .bucket index divide multiply ∈ plan.terms) :
      index = orderingKey ∧
        ((divide = 1 ∧ multiply = none) ∨ ∃ name, .bucket name divide multiply ∈ keys) := by
    obtain ⟨key, present, same⟩ := forall₂_mem_right resolved member
    obtain ⟨axis, bare | ⟨name, rfl⟩⟩ := resolveGroupKey_bucket same
    · exact ⟨axis, .inl bare⟩
    · exact ⟨axis, .inr ⟨name, present⟩⟩
  refine GroupPlan.streams_as_hashed (by rw [streams, bucketed, ordered]; rfl) bucketed
    (GroupPlan.not_returns_of_exact (fun index divide multiply member => (fromKey member).1)
      (fun index divide multiply member => ?_)
      (ordered_after sound ordered).1 fun index divide multiply member => ?_)
  · rcases (fromKey member).2 with ⟨rfl, rfl⟩ | ⟨name, present⟩
    · exact ⟨by decide, by simp⟩
    · exact ⟨(accepted name divide multiply present).1, (accepted name divide multiply present).2.1⟩
  · rcases (fromKey member).2 with ⟨rfl, rfl⟩ | ⟨name, present⟩
    · simp [GroupTerm.ExactAt]
    · exact (accepted name divide multiply present).2.2

end Planned

/-! ### A wrapped bucket -/

def clockView (clocks : List Int64) : SegmentView UInt64 where
  segment := {
    batch := { schema := ⟨[.new "ts" .i64 false]⟩, columns := [.i64 clocks none] }
    orderingKey := 0
    ordered := true
    baseRowId := 0
    zoneMaps := []
    sequence := .rowIds
    superseded := none }
  live := none

def countPlan (divide : Int64) (multiply : Option Int64) : GroupPlan UInt64 where
  terms := [.bucket 0 divide multiply]
  arguments := [none]
  template := [.countStar 0]
  orderingKey := some 0
  streaming := true

theorem clockView_sorted {clocks : List Int64} (sorted : clocks.Pairwise (· ≤ ·)) :
    (clockView clocks).segment.Sorted where
  full := rfl
  sorted _ := sorted

/-- Minutes of three seconds are grouped as they stream by. -/
theorem minutes_stream :
    (countPlan 60 none).streaming = true ∧
    ([clockView [0, 60, 61]].flatMap (·.liveClocks 0)).Pairwise (· ≤ ·) ∧
      (¬ (countPlan 60 none).KeyReturns [clockView [0, 60, 61]] →
        (countPlan 60 none).groups [clockView [0, 60, 61]] = (countPlan 60 none).hashing.groups
        [clockView [0, 60, 61]]) ∧
      ∀ hashed, (countPlan 60 none).hashing.groups [clockView [0, 60, 61]] = .ok hashed →
        ((countPlan 60 none).groups [clockView [0, 60, 61]] = .ok hashed ↔
          ¬ (countPlan 60 none).KeyReturns [clockView [0, 60, 61]]) := by
  refine streaming_groups_iff
    (show groupPlan ⟨[.new "ts" .i64 false]⟩ [clockView [0, 60, 61]] (some 0) [.bucket "ts" 60 none]
    [.call ⟨.count, none, none⟩] = .ok (countPlan 60 none) by
    decide +kernel) (by decide) (fun view member => ?_) (by decide +kernel)
  rw [List.mem_singleton.mp member]
  exact clockView_sorted (by decide)

/-- The bucket of the third clock wraps onto that of the first, and its group is emitted twice. -/
theorem wrapped_bucket_twice :
    groupPlan ⟨[.new "ts" .i64 false]⟩ [clockView [0, 1, 4]] (some 0)
      [.bucket "ts" 1 (some 0x4000000000000000)]
        [.call ⟨.count, none, none⟩] = .ok (countPlan 1 (some 0x4000000000000000)) ∧
      orderingProblem [clockView [0, 1, 4]] 0 = none ∧
      ((countPlan 1 (some 0x4000000000000000)).groups [clockView [0, 1, 4]]).toOption.map Prod.fst =
        some [([.bucket 0], [.i64 (some 1)]), ([.bucket 0x4000000000000000], [.i64 (some 1)]),
          ([.bucket 0], [.i64 (some 1)])] ∧
      ((countPlan 1 (some 0x4000000000000000)).hashing.groups [clockView [0, 1, 4]]).toOption.map
        Prod.fst =
        some [([.bucket 0], [.i64 (some 2)]), ([.bucket 0x4000000000000000], [.i64 (some 1)])] := by
  decide +kernel

end TallyDB
