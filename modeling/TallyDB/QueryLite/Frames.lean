import TallyDB.Logic.Except
import TallyDB.QueryLite.Streaming
import TallyDB.QueryLite.TopK
import TallyDB.QueryLite.Window

/-!
# Window frames

What each live row of a snapshot sees in a window: the rows of its partition, in order, and
of them those of its frame. `window_standard_iff` says when that is so.
-/

namespace TallyDB

variable {F : Type}

/-! ### The frames of one run -/

/-- The frame reaches from the first row whose key is within the span of the row's own key to the
last row with that same key. -/
structure RangeFrame (keys : List Int64) (span : UInt64) (i : Nat) (bounds : Nat × Nat) : Prop where
  first : ∀ j < bounds.1, (keys.getD j 0).toInt < (keys.getD i 0).toInt - span.toNat
  within : (keys.getD i 0).toInt - span.toNat ≤ (keys.getD bounds.1 0).toInt
  start : bounds.1 ≤ i
  peers : ∀ j, i ≤ j → j < bounds.2 → keys.getD j 0 = keys.getD i 0
  last : ∀ j, bounds.2 ≤ j → j < keys.length → keys.getD j 0 ≠ keys.getD i 0
  after : i < bounds.2
  inside : bounds.2 ≤ keys.length

theorem saturatingSubUnsigned_lt (key other : Int64) (span : UInt64) :
    other < saturatingSubUnsigned key span ↔ other.toInt < key.toInt - span.toNat := by
  have low := other.le_toInt
  have high := key.toInt_lt
  have bottom := key.le_toInt
  rw [Int64.lt_iff_toInt_lt, saturatingSubUnsigned, Int64.toInt_ofInt_of_le (by omega) (by omega)]
  omega

/-- A pointer advances over rows that pass a test and stops at the first that does not. -/
theorem advance_spec {α : Type} (p : α → Bool) (values : List α) (fallback : α) {pointer : Nat}
    (inside : pointer ≤ values.length) :
    let stop := pointer + ((values.drop pointer).takeWhile p).length
    stop ≤ values.length ∧ (∀ j, pointer ≤ j → j < stop → p (values.getD j fallback) = true) ∧
      (stop < values.length → p (values.getD stop fallback) = false) := by
  induction rest : values.drop pointer generalizing pointer with
  | nil =>
    have done : values.length ≤ pointer := List.drop_eq_nil_iff.mp rest
    simp only [List.takeWhile_nil, List.length_nil, Nat.add_zero]
    exact ⟨inside, fun j above below => absurd below (Nat.not_lt.mpr above),
      fun more => absurd more (Nat.not_lt.mpr done)⟩
  | cons value tail ih =>
    have more : pointer < values.length := by
      by_contra done
      rw [List.drop_eq_nil_of_le (Nat.not_lt.mp done)] at rest
      cases rest
    have here : values.getD pointer fallback = value := by
      rw [List.drop_eq_getElem_cons more] at rest
      rw [List.getD_eq_getElem _ _ more]
      exact (List.cons.inj rest).1
    have behind : values.drop (pointer + 1) = tail := by
      rw [← List.tail_drop, rest, List.tail_cons]
    by_cases passes : p value
    · obtain ⟨bound, passed, stopped⟩ := ih more behind
      rw [List.takeWhile_cons_of_pos passes, List.length_cons]
      rw [show pointer + ((tail.takeWhile p).length + 1) = pointer + 1 +
        (tail.takeWhile p).length by omega]
      refine ⟨bound, fun j above below => ?_, stopped⟩
      rcases Nat.eq_or_lt_of_le above with rfl | above
      · rw [here, passes]
      · exact passed j above below
    · rw [List.takeWhile_cons_of_neg passes]
      refine ⟨inside, fun j above below => absurd below (Nat.not_lt.mpr above), fun _ => ?_⟩
      rw [List.length_nil, Nat.add_zero, here]
      exact Bool.eq_false_iff.mpr passes

theorem sorted_getD {keys : List Int64} (sorted : keys.Pairwise (· ≤ ·)) {i j : Nat} (order : i ≤ j)
    (inside : j < keys.length) :
    keys.getD i 0 ≤ keys.getD j 0 := by
  rcases Nat.eq_or_lt_of_le order with rfl | less
  · exact Int64.le_refl _
  · rw [List.getD_eq_getElem _ _ (less.trans inside), List.getD_eq_getElem _ _ inside]
    exact List.pairwise_iff_getElem.mp sorted i j _ inside less

/-- Where both pointers stand before a row. -/
structure Advanced (keys : List Int64) (span : UInt64) (i start end_ : Nat) : Prop where
  low : start ≤ i
  behind : ∀ j < start, i < keys.length → (keys.getD j 0).toInt < (keys.getD i 0).toInt - span.toNat
  inside : end_ ≤ keys.length
  peers : ∀ j, i ≤ j → j < end_ → keys.getD j 0 = keys.getD i 0

theorem rangeBoundsFrom_spec {keys : List Int64} (sorted : keys.Pairwise (· ≤ ·)) (span : UInt64)
    {i start end_ : Nat}
    (before : Advanced keys span i start end_) (k : Nat) (reached : i + k < keys.length) :
    ∃ bounds, (rangeBoundsFrom keys span (keys.zipIdx.drop i) start end_)[k]? = some bounds ∧
      RangeFrame keys span (i + k) bounds := by
  have inside : i < keys.length := by omega
  have here : keys.zipIdx.drop i = (keys.getD i 0, i) :: keys.zipIdx.drop (i + 1) := by
    rw [List.drop_eq_getElem_cons (by rwa [List.length_zipIdx]), List.getElem_zipIdx,
      List.getD_eq_getElem _ _ inside, Nat.zero_add]
  obtain ⟨bound, passed, stopped⟩ :=
    advance_spec (fun key => decide (key < saturatingSubUnsigned (keys.getD i 0) span)) keys 0
    (before.low.trans (Nat.le_of_lt inside))
  obtain ⟨bound', passed', stopped'⟩ := advance_spec (fun key => decide (key = keys.getD i 0)) keys 0
    (show max end_ (i + 1) ≤ keys.length from max_le before.inside inside)
  rw [here, rangeBoundsFrom]
  generalize start +
    ((keys.drop start).takeWhile (· < saturatingSubUnsigned (keys.getD i 0) span)).length = start' at *
  have reached' : i < max end_ (i + 1) +
    ((keys.drop (max end_ (i + 1))).takeWhile (· = keys.getD i 0)).length := by omega
  generalize max end_ (i + 1) +
    ((keys.drop (max end_ (i + 1))).takeWhile (· = keys.getD i 0)).length = end' at *
  simp only [decide_eq_true_eq, decide_eq_false_iff_not,
    saturatingSubUnsigned_lt] at passed stopped passed' stopped'
  have stays : start' ≤ i := by
    by_contra beyond
    have own := passed i before.low (Nat.lt_of_not_le beyond)
    omega
  have frame : RangeFrame keys span i (start', end') := by
    refine ⟨fun j below => ?_, ?_, stays, fun j above below => ?_, fun j above inside' => ?_,
      reached', bound'⟩
    · by_cases old : j < start
      · exact before.behind j old inside
      · exact passed j (Nat.not_lt.mp old) below
    · exact not_lt.mp (stopped (Nat.lt_of_le_of_lt stays inside))
    · by_cases old : j < max end_ (i + 1)
      · rcases lt_max_iff.mp old with peer | own
        · exact before.peers j above peer
        · rw [show j = i by omega]
      · exact passed' j (Nat.not_lt.mp old) below
    · -- The first row past the peers has a greater key, and so have all rows after it.
      have stop := stopped' (Nat.lt_of_le_of_lt above inside')
      have up := sorted_getD sorted above inside'
      have own := sorted_getD sorted (Nat.le_of_lt reached') (Nat.lt_of_le_of_lt above inside')
      intro same
      rw [same] at up
      exact stop (Int64.le_antisymm up own)
  cases k with
  | zero => exact ⟨_, rfl, frame⟩
  | succ k =>
    have next : Advanced keys span (i + 1) start' end' := by
      refine ⟨stays.trans (Nat.le_succ i), fun j below inside' => ?_, bound', fun j above below => ?_⟩
      · have up := Int64.le_iff_toInt_le.mp (sorted_getD sorted (Nat.le_add_right i 1) inside')
        have low := frame.first j below
        omega
      · rw [frame.peers j (by omega) below, frame.peers (i + 1) (Nat.le_add_right i 1) (by
            dsimp only
            omega)]
    rw [show i + (k + 1) = i + 1 + k by omega]
    exact rangeBoundsFrom_spec sorted span next k (by omega)

/-- One pass over non-decreasing keys finds every row's frame. -/
theorem rangeBounds_spec {keys : List Int64} (sorted : keys.Pairwise (· ≤ ·)) (span : UInt64)
    {i : Nat} (inside : i < keys.length) :
    ∃ bounds, (rangeBounds keys span)[i]? = some bounds ∧ RangeFrame keys span i bounds := by
  have start : Advanced keys span 0 0 0 :=
    ⟨Nat.le_refl 0, fun j below => absurd below (Nat.not_lt_zero j), Nat.zero_le _,
    fun j _ below => absurd below (Nat.not_lt_zero j)⟩
  simpa [rangeBounds] using rangeBoundsFrom_spec sorted span start i (by omega)

/-- An aggregate gives, for a frame of this shape, what evaluating each frame by itself gives: so
where it overrides nothing. -/
def WindowAggregate.Recomputes (aggregate : WindowAggregate F)
    (evaluate : List (List F) → Except String (Option F)) : Frame → Prop
  | .rows preceding =>
      ∀ columns, aggregate.evaluateFrames columns preceding = recomputeFrames evaluate columns preceding
  | .range _ | .partition =>
    ∀ columns bounds, aggregate.evaluateBoundedFrames columns bounds =
      recomputeBoundedFrames evaluate columns bounds

theorem AggFunction.window_recomputes [F64Math F] (function : AggFunction) (frame : Frame) :
    (function.window : WindowAggregate F).Recomputes function.evaluateWindow frame := by
  cases frame with
  | rows preceding => exact fun columns => rfl
  | range span => exact fun columns bounds => rfl
  | partition => exact fun columns bounds => rfl

/-- Where the frame of a run's row lies: the last rows up to it, the rows of a span of keys, or the
run. -/
def Frame.Standard (keys : List Int64) (i : Nat) (bounds : Nat × Nat) : Frame → Prop
  | .rows preceding =>
      bounds.2 = i + 1 ∧ bounds.2 - bounds.1 = preceding.elim (i + 1) fun n => min (n + 1) (i + 1)
  | .range span => RangeFrame keys span i bounds
  | .partition => bounds = (0, keys.length)

theorem windowBounds_standard (keys : List Int64) (i : Nat) (preceding : Option Nat) :
    (Frame.rows preceding).Standard keys i (windowBounds i preceding) := by
  refine ⟨rfl, ?_⟩
  cases preceding with
  | none => rfl
  | some n =>
    simp only [windowBounds, Option.elim_some]
    omega

theorem recomputeBounded_get {evaluate : List (List F) → Except String (Option F)}
    {columns : List (List F)} {bounds : List (Nat × Nat)}
    {results : List (Option F)} (ran : recomputeBoundedFrames evaluate columns bounds = .ok results)
    {i : Nat} {bound : Nat × Nat}
    (here : bounds[i]? = some bound) : ∃ value, results[i]? = some value ∧ evaluate
      (frameOf columns bound) = .ok value := by
  have related := except_mapM_ok ran
  obtain ⟨inside, rfl⟩ := List.getElem?_eq_some_iff.mp here
  have inside' : i < results.length := related.length_eq ▸ inside
  exact ⟨results[i], List.getElem?_eq_getElem inside', related.get inside inside'⟩

/-- What an aggregate is asked about a run: trailing rows it counts itself, the bounds of any other
frame it is handed. -/
def WindowAggregate.ask (aggregate : WindowAggregate F) (columns : List (List F))
    (frames : List (Nat × Nat)) :
    Frame → Except String (List (Option F))
  | .rows preceding => aggregate.evaluateFrames columns preceding
  | .range _ | .partition => aggregate.evaluateBoundedFrames columns frames

/-- A run's results: what the aggregate answers for the standard frames of the run's rows, one for
each row. -/
structure WindowAggregate.Answers (aggregate : WindowAggregate F) (columns : List (List F))
    (frame : Frame) (keys : List Int64)
    (frames : List (Nat × Nat)) (results : List (Option F)) : Prop where
  sized : results.length = keys.length
  standard : ∀ i < keys.length, ∃ bounds, frames[i]? = some bounds ∧ frame.Standard keys i bounds
  asked : aggregate.ask columns frames frame = .ok results
  each : ∀ evaluate, aggregate.Recomputes evaluate frame → ∀ (i : Nat) (bounds : Nat × Nat),
    frames[i]? = some bounds →
    ∃ value, results[i]? = some value ∧ evaluate (frameOf columns bounds) = .ok value

theorem evaluateRun_spec {aggregate : WindowAggregate F} {columns : List (List F)} {frame : Frame}
    {keys : List Int64}
    (sorted : keys.Pairwise (· ≤ ·)) {results : List (Option F)}
    (ran : evaluateRun aggregate columns keys.length frame keys = .ok results) :
    ∃ frames, aggregate.Answers columns frame keys frames results := by
  unfold evaluateRun at ran
  dsimp only at ran
  split at ran
  · cases ran
  next evaluated =>
  split at ran
  · cases ran
  next sized =>
  obtain rfl := Except.ok.inj ran
  have sized := not_not.mp sized
  cases frame with
  | rows preceding =>
    refine ⟨(List.range keys.length).map (windowBounds · preceding), sized, fun i inside => ?_,
      evaluated, fun evaluate each i bounds here => ?_⟩
    · exact ⟨_, by rw [List.getElem?_map, List.getElem?_range inside, Option.map_some],
        windowBounds_standard keys i preceding⟩
    · have again := (each columns).symm.trans evaluated
      rw [recomputeFrames] at again
      have related := except_mapM_ok again
      have length := related.length_eq
      rw [List.length_range, sized] at length
      rw [List.getElem?_map] at here
      obtain ⟨position, at_, rfl⟩ := Option.map_eq_some_iff.mp here
      obtain ⟨inside, rfl⟩ := List.getElem?_eq_some_iff.mp at_
      rw [List.length_range] at inside
      have value := related.get (by rw [List.length_range, length]; exact inside) (sized.symm ▸ inside)
      rw [List.get_eq_getElem, List.getElem_range] at value
      rw [List.getElem_range]
      exact ⟨_, List.getElem?_eq_getElem (sized.symm ▸ inside), value⟩
  | range span =>
    refine ⟨rangeBounds keys span, sized, fun i inside => rangeBounds_spec sorted span inside,
      evaluated, fun evaluate each i bounds here => ?_⟩
    exact recomputeBounded_get ((each _ _).symm.trans evaluated) here
  | partition =>
    refine ⟨List.replicate keys.length (0, keys.length), sized, fun i inside => ?_, evaluated,
      fun evaluate each i bounds here => ?_⟩
    · exact ⟨_, List.getElem?_replicate_of_lt inside, rfl⟩
    · exact recomputeBounded_get ((each _ _).symm.trans evaluated) here

/-! ### Places -/

def places (views : List (SegmentView F)) : List (Nat × Nat) :=
  views.zipIdx.flatMap fun entry => (List.range entry.1.liveIndices.length).map (entry.2, ·)

def rowAt (views : List (SegmentView F)) (place : Nat × Nat) : Option (SegmentView F × Nat) :=
  views[place.1]?.bind fun view => view.liveIndices[place.2]?.map (view, ·)

theorem mem_places {views : List (SegmentView F)} {place : Nat × Nat} : place ∈ places views ↔
    (rowAt views place).isSome = true := by
  obtain ⟨index, position⟩ := place
  simp only [places, List.mem_flatMap, List.mem_map, List.mem_range, Prod.mk.injEq, rowAt]
  constructor
  · rintro ⟨⟨view, at_⟩, member, own, inside, rfl, rfl⟩
    have found : views[at_]? = some view := List.mem_zipIdx_iff_getElem?.mp member
    simp [found, inside]
  · intro some_
    cases found : views[index]? with
    | none => simp [found] at some_
    | some view =>
      have inside : position < view.liveIndices.length := by simpa [found] using some_
      exact ⟨(view, index), List.mem_zipIdx_iff_getElem?.mpr found, position, inside, rfl, rfl⟩

theorem places_nodup (views : List (SegmentView F)) : (places views).Nodup := by
  refine List.nodup_flatMap.mpr ⟨fun entry _ => List.nodup_range.map fun a b same =>
    (Prod.mk.inj same).2, ?_⟩
  have distinct : (views.zipIdx.map Prod.snd).Nodup := by
    rw [List.zipIdx_map_snd]
    exact List.nodup_range'
  refine (List.pairwise_map.mp distinct).imp fun {a b} different => ?_
  refine List.disjoint_left.mpr ?_
  intro place left right
  obtain ⟨position, -, rfl⟩ := List.mem_map.mp left
  obtain ⟨other, -, same⟩ := List.mem_map.mp right
  exact different (Prod.mk.inj same).1.symm

/-! ### Runs of one key -/

theorem pushRun_classes {key : List GroupCode} (place : Nat × Nat) {keys : List (List GroupCode)}
    (distinct : keys.Nodup)
    (rows : List GroupCode → RowRun) :
    pushRun key place (keys.map fun k => (k, rows k)) =
      if key ∈ keys then keys.map fun k => (k, if k = key then rows k ++ [place] else rows k)
      else keys.map (fun k => (k, rows k)) ++ [(key, [place])] := by
  induction keys with
  | nil => rfl
  | cons k keys ih =>
    obtain ⟨absent, distinct⟩ := List.nodup_cons.mp distinct
    rw [List.map_cons, pushRun]
    by_cases same : k = key
    · subst same
      rw [if_pos rfl, if_pos List.mem_cons_self, List.map_cons, if_pos rfl]
      refine congrArg _ (List.map_congr_left fun other member => ?_)
      rw [if_neg fun same : other = k => absent (same ▸ member)]
    · rw [if_neg same, ih distinct, List.map_cons, if_neg same]
      by_cases member : key ∈ keys
      · rw [if_pos member, if_pos (List.mem_cons_of_mem _ member)]
      · rw [if_neg member, if_neg (by simpa [Ne.symm same] using member), List.cons_append]

/-- Pushing rows one by one leaves a run for each key, of the rows with that key in their order. -/
theorem pushRun_fold (items : List (List GroupCode × (Nat × Nat))) :
    ∃ keys : List (List GroupCode), keys.Nodup ∧
    (∀ key, key ∈ keys ↔ key ∈ items.map Prod.fst) ∧
      items.foldl (fun runs item => pushRun item.1 item.2 runs) [] =
        keys.map fun key => (key, (items.filter (·.1 = key)).map Prod.snd) := by
  induction items using List.reverseRecOn with
  | nil => exact ⟨[], List.nodup_nil, by simp, rfl⟩
  | append_singleton items item ih =>
    obtain ⟨keys, distinct, reached, runs⟩ := ih
    rw [List.foldl_append, List.foldl_cons, List.foldl_nil, runs, pushRun_classes item.2 distinct]
    by_cases member : item.1 ∈ keys
    · refine ⟨keys, distinct, fun key => ?_, ?_⟩
      · rw [List.map_append, List.mem_append, reached key, List.map_singleton, List.mem_singleton]
        refine ⟨.inl, fun either => either.elim id fun same => ?_⟩
        rw [same]
        exact (reached _).mp member
      · rw [if_pos member]
        refine List.map_congr_left fun key _ => ?_
        rw [List.filter_append, List.map_append]
        by_cases same : key = item.1
        · simp [same]
        · simp [same, Ne.symm same]
    · refine ⟨keys ++ [item.1], ?_, fun key => ?_, ?_⟩
      · exact List.nodup_append.mpr ⟨distinct, List.nodup_singleton _,
          fun key present _ added same => member (List.mem_singleton.mp added ▸ same ▸ present)⟩
      · rw [List.mem_append, reached key, List.map_append, List.mem_append, List.map_singleton]
      · have absent : items.filter (·.1 = item.1) = [] := by
          refine List.filter_eq_nil_iff.mpr fun other present => ?_
          have := fun same => member ((reached item.1).mpr (List.mem_map.mpr ⟨other, present, same⟩))
          simpa using this
        rw [if_neg member, List.map_append, List.map_singleton]
        refine congrArg₂ (· ++ ·) (List.map_congr_left fun key present => ?_) ?_
        · have other : item.1 ≠ key := fun same => member (same ▸ present)
          simp [List.filter_append, other]
        · simp [List.filter_append, absent]

/-! ### What tells partitions apart -/

/-- What the engine tells the rows of a term apart by: a symbol's text, or a stored word. -/
inductive Mark where
  | text (text : Option String)
  | word (value : Int64)
  deriving DecidableEq

def GroupTerm.mark (batch : RecordBatch F) (row : Nat) : GroupTerm → Mark
  | label index => .text ((batch.column index).valueAt row)
  | bucket index divide multiply =>
      .word (bucketValue divide multiply ((orderingClocks (batch.column index)).getD row 0))

/-- A mark's code in a key space. -/
def Mark.codeIn (dictionary : Dictionary) : Mark → GroupCode
  | .text none => .label none
  | .text (some value) => .label (some (dictionary.values.idxOf value))
  | .word value => .bucket value

/-- The key space has the mark. -/
def Mark.Known (dictionary : Dictionary) : Mark → Prop
  | .text (some value) => value ∈ dictionary.values
  | _ => True

theorem Mark.codeIn_inj {dictionary : Dictionary} {left right : Mark} (known : left.Known dictionary)
    (same : left.codeIn dictionary = right.codeIn dictionary) : left = right := by
  rcases left with (_ | left) | left <;> rcases right with (_ | right) | right <;>
    simp only [codeIn, reduceCtorEq, GroupCode.label.injEq] at same
  · rfl
  · rw [(List.idxOf_inj known).mp (Option.some.inj same)]
  · rw [GroupCode.bucket.inj same]

theorem Mark.known_grown {dictionary grown : Dictionary}
    (extends_ : dictionary.values <+: grown.values) {mark : Mark}
    (known : mark.Known dictionary) : mark.Known grown ∧
    mark.codeIn grown = mark.codeIn dictionary := by
  rcases mark with (_ | value) | value
  · exact ⟨trivial, rfl⟩
  · refine ⟨extends_.subset known, ?_⟩
    obtain ⟨more, grown⟩ := extends_
    rw [codeIn, ← grown, List.idxOf_append_of_mem known, codeIn]
  · exact ⟨trivial, rfl⟩

/-- Every symbol column has a code of its dictionary at every row. -/
def RecordBatch.Coded (batch : RecordBatch F) (rows : Nat) : Prop :=
  ∀ index codes validity dictionary, batch.column index = .key codes validity dictionary →
    codes.length = rows ∧ ∀ code ∈ codes, code < dictionary.values.length

/-- A row's code in the key space that its view leaves is that of its mark. -/
theorem GroupTerm.remap_mark {batch : RecordBatch F} {rows : Nat} (coded : batch.Coded rows)
    (term : GroupTerm) (unified : Dictionary) :
    unified.values <+: (term.remap batch unified).2.values ∧ ∀ row < rows,
    (term.mark batch row).Known (term.remap batch unified).2 ∧
      term.code batch row (term.remap batch unified).1 = (term.mark batch row).codeIn
        (term.remap batch unified).2 := by
  cases term with
  | bucket index divide multiply => exact ⟨List.prefix_rfl, fun row _ => ⟨trivial, rfl⟩⟩
  | label index =>
    cases column : batch.column index with
    | f64 values validity =>
      simp only [remap, mark, code, column, Column.valueAt]
      exact ⟨List.prefix_rfl, fun row _ => ⟨trivial, rfl⟩⟩
    | i64 values validity =>
      simp only [remap, mark, code, column, Column.valueAt]
      exact ⟨List.prefix_rfl, fun row _ => ⟨trivial, rfl⟩⟩
    | key codes validity dictionary =>
      obtain ⟨length, inside⟩ := coded index codes validity dictionary column
      obtain ⟨-, grown, texts⟩ := internAll_value (dictionary.values.map some) unified
      simp only [remap, mark, code, column, Column.valueAt]
      refine ⟨grown, fun row below => ?_⟩
      split
      · have at_ : codes.getD row 0 < dictionary.values.length := by
          rw [List.getD_eq_getElem _ _ (length ▸ below)]
          exact inside _ (List.getElem_mem _)
        obtain ⟨bound, value⟩ := texts (codes.getD row 0) (dictionary.value (codes.getD row 0))
          (by
            rw [List.getElem?_map, List.getElem?_eq_getElem at_, Dictionary.value,
              List.getD_eq_getElem _ _ at_, Option.map_some])
        rw [Dictionary.value, List.getD_eq_getElem _ _ bound] at value
        rw [Mark.Known, Mark.codeIn, ← value]
        refine ⟨List.getElem_mem bound, ?_⟩
        rw [List.Nodup.idxOf_getElem (internAll (dictionary.values.map some) unified).2.distinct]
      · exact ⟨trivial, rfl⟩

def codesIn (unified : List Dictionary) (marks : List Mark) : List GroupCode :=
  List.zipWith Mark.codeIn unified marks

theorem codesIn_inj {unified : List Dictionary} {left right : List Mark}
    (known : List.Forall₂ (fun dictionary mark => Mark.Known dictionary mark) unified left)
    (length : right.length = left.length) (same : codesIn unified left = codesIn unified right) :
    left = right := by
  induction known generalizing right with
  | nil => exact (List.length_eq_zero_iff.mp length).symm
  | cons head _ ih =>
    cases right with
    | nil => cases length
    | cons mark right =>
      obtain ⟨first, rest⟩ := List.cons.inj same
      rw [Mark.codeIn_inj head first, ih (Nat.succ.inj length) rest]

theorem codesIn_grown {unified grown : List Dictionary}
    (extends_ : List.Forall₂ (fun dictionary later => dictionary.values <+: later.values) unified grown)
    {marks : List Mark}
    (known : List.Forall₂ (fun dictionary mark => Mark.Known dictionary mark) unified marks) :
    List.Forall₂ (fun dictionary mark => Mark.Known dictionary mark) grown marks ∧
    codesIn grown marks = codesIn unified marks := by
  induction extends_ generalizing marks with
  | nil =>
    cases known
    exact ⟨.nil, rfl⟩
  | cons head _ ih =>
    cases known with
    | cons here rest =>
      obtain ⟨kept, code⟩ := Mark.known_grown head here
      obtain ⟨kept', codes⟩ := ih rest
      exact ⟨.cons kept kept', congrArg₂ List.cons code codes⟩

theorem remaps_marks {batch : RecordBatch F} {rows : Nat} (coded : batch.Coded rows)
    (terms : List GroupTerm) {unified : List Dictionary}
    (sized : unified.length = terms.length) :
    List.Forall₂ (fun dictionary later => dictionary.values <+: later.values) unified
      (remaps batch terms unified).2 ∧ ∀ row < rows,
      List.Forall₂ (fun dictionary mark => Mark.Known dictionary mark)
        (remaps batch terms unified).2 (terms.map (GroupTerm.mark batch row)) ∧
        groupKey batch terms (remaps batch terms unified).1 row =
          codesIn (remaps batch terms unified).2 (terms.map (GroupTerm.mark batch row)) := by
  induction terms generalizing unified with
  | nil =>
    obtain rfl := List.length_eq_zero_iff.mp sized
    exact ⟨.nil, fun row _ => ⟨.nil, rfl⟩⟩
  | cons term terms ih =>
    cases unified with
    | nil => cases sized
    | cons dictionary unified =>
      obtain ⟨grown, here⟩ := GroupTerm.remap_mark coded term dictionary
      obtain ⟨growns, rest⟩ := ih (Nat.succ.inj sized)
      refine ⟨.cons grown growns, fun row below => ?_⟩
      obtain ⟨known, code⟩ := here row below
      obtain ⟨knowns, codes⟩ := rest row below
      exact ⟨.cons known knowns, congrArg₂ List.cons code codes⟩

/-! ### The runs of a snapshot -/

def partitionItems (terms : List GroupTerm) : List (SegmentView F × Nat) → List Dictionary → List
      (List GroupCode × (Nat × Nat))
  | [], _ => []
  | entry :: rest, unified =>
    entry.1.liveIndices.zipIdx.map (fun at_ =>
      (groupKey entry.1.segment.batch terms (remaps entry.1.segment.batch terms unified).1 at_.1,
      (entry.2, at_.2))) ++
      partitionItems terms rest (remaps entry.1.segment.batch terms unified).2

theorem partitionRuns_ok {terms : List GroupTerm} {entries : List (SegmentView F × Nat)}
    {unified : List Dictionary}
    {runs runs' : List (List GroupCode × RowRun)}
    (ran : partitionRuns terms entries unified runs = .ok runs') :
    runs' = (partitionItems terms entries unified).foldl
      (fun runs item => pushRun item.1 item.2 runs) runs := by
  induction entries generalizing unified runs with
  | nil => exact (Except.ok.inj ran).symm
  | cons entry rest ih =>
    unfold partitionRuns at ran
    obtain ⟨-, -, ran⟩ := except_bind_ok ran
    rw [partitionItems, List.foldl_append, List.foldl_map]
    exact ih ran

theorem growth_trans {first second third : List Dictionary}
    (grown : List.Forall₂ (fun dictionary later => dictionary.values <+: later.values) first second)
    (more : List.Forall₂ (fun dictionary later => dictionary.values <+: later.values) second third) :
    List.Forall₂ (fun dictionary later => dictionary.values <+: later.values) first third := by
  induction grown generalizing third with
  | nil => exact more
  | cons head _ ih =>
    cases more with
    | cons head' tail => exact .cons (head.trans head') (ih tail)

theorem partitionItems_eq {terms : List GroupTerm} {entries : List (SegmentView F × Nat)}
    {unified : List Dictionary}
    (coded : ∀ entry ∈ entries, entry.1.segment.batch.Coded entry.1.segment.numRows)
    (sized : unified.length = terms.length) :
    ∃ final, List.Forall₂ (fun dictionary later => dictionary.values <+: later.values) unified final ∧
      (∀ entry ∈ entries, ∀ row ∈ entry.1.liveIndices,
        List.Forall₂ (fun dictionary mark => Mark.Known dictionary mark) final
        (terms.map (GroupTerm.mark entry.1.segment.batch row))) ∧
      partitionItems terms entries unified = entries.flatMap fun entry =>
        entry.1.liveIndices.zipIdx.map fun at_ =>
        (codesIn final (terms.map (GroupTerm.mark entry.1.segment.batch at_.1)), (entry.2, at_.2)) := by
  induction entries generalizing unified with
  | nil => exact ⟨unified, List.forall₂_same.mpr fun _ _ => List.prefix_rfl, by simp, rfl⟩
  | cons entry rest ih =>
    obtain ⟨grown, here⟩ := remaps_marks (coded entry List.mem_cons_self) terms sized
    obtain ⟨final, more, known, items⟩ :=
      ih (fun other member => coded other (List.mem_cons_of_mem _ member))
      (grown.length_eq.symm.trans sized)
    refine ⟨final, ?_, fun other member => ?_, ?_⟩
    · exact growth_trans grown more
    · rcases List.mem_cons.mp member with rfl | member
      · exact fun row live => (codesIn_grown more (here row (SegmentView.liveIndices_lt live)).1).1
      · exact known other member
    · rw [partitionItems, items, List.flatMap_cons]
      refine congrArg (· ++ _) (List.map_congr_left fun at_ member => ?_)
      have live : at_.1 ∈ entry.1.liveIndices := (List.mem_zipIdx' member).2 ▸ List.getElem_mem _
      obtain ⟨known, key⟩ := here at_.1 (SegmentView.liveIndices_lt live)
      rw [key, (codesIn_grown more known).2]

/-- What the engine tells a live row's partition by. -/
def marksAt (terms : List GroupTerm) (views : List (SegmentView F)) (place : Nat × Nat) : List Mark :=
  (rowAt views place).elim [] fun at_ => terms.map (GroupTerm.mark at_.1.segment.batch at_.2)

theorem flatMap_places {α : Type} (f : SegmentView F → Nat → α) (views : List (SegmentView F))
    (fallback : α) :
    (views.zipIdx.flatMap fun entry => entry.1.liveIndices.zipIdx.map fun at_ =>
      (f entry.1 at_.1, (entry.2, at_.2))) =
      (places views).map fun place =>
      ((rowAt views place).elim fallback fun at_ => f at_.1 at_.2, place) := by
  rw [places, List.map_flatMap]
  refine List.flatMap_congr fun entry member => ?_
  have found : views[entry.2]? = some entry.1 := List.mem_zipIdx_iff_getElem?.mp member
  refine List.ext_getElem (by simp) fun position low high => ?_
  have inside : position < entry.1.liveIndices.length := by simpa using low
  simp [rowAt, found, List.getElem?_eq_getElem inside]

theorem marksAt_known {terms : List GroupTerm} {views : List (SegmentView F)} {final : List Dictionary}
    (known : ∀ entry ∈ views.zipIdx, ∀ row ∈ entry.1.liveIndices,
      List.Forall₂ (fun dictionary mark => Mark.Known dictionary mark) final
      (terms.map (GroupTerm.mark entry.1.segment.batch row)))
    {place : Nat × Nat} (live : place ∈ places views) :
    List.Forall₂ (fun dictionary mark => Mark.Known dictionary mark) final (marksAt terms views place) ∧
      (marksAt terms views place).length = terms.length := by
  obtain ⟨at_, here⟩ := Option.isSome_iff_exists.mp (mem_places.mp live)
  rw [marksAt, here, Option.elim_some, List.length_map]
  obtain ⟨view, found, row, position, rfl⟩ : ∃ view, views[place.1]? = some view ∧
      ∃ row, view.liveIndices[place.2]? = some row ∧ (view, row) = at_ := by
    simpa [rowAt, Option.bind_eq_some_iff] using here
  exact ⟨known (view, place.1) (List.mem_zipIdx_iff_getElem?.mpr found) row
    (List.mem_of_getElem? position), rfl⟩

/-- Each run is of the live rows that the engine cannot tell from one of its rows, and every live
row is in one run. -/
structure RunsByMark (terms : List GroupTerm) (views : List (SegmentView F))
    (runs : List RowRun) : Prop where
  alike : ∀ run ∈ runs, ∀ place ∈ run, run = (places views).filter fun other =>
    marksAt terms views other = marksAt terms views place
  covers : ∀ place ∈ places views, ∃ run ∈ runs, place ∈ run
  once : runs.flatten.Nodup

theorem valueRuns_byMark {schema : Schema} {views : List (SegmentView F)} {partitionBy : List GroupKey}
    (coded : ∀ view ∈ views, view.segment.batch.Coded view.segment.numRows) {runs : List RowRun}
    (ran : valueRuns schema views partitionBy = .ok runs) :
    ∃ terms, partitionBy.mapM (resolvePartitionKey schema (orderingKeyOfViews views)) = .ok terms ∧
    RunsByMark terms views runs := by
  unfold valueRuns at ran
  split at ran
  · next alone =>
    obtain rfl : partitionBy = [] := by simpa using alone
    obtain rfl : [places views] = runs := Except.ok.inj ran
    have same (place : Nat × Nat) : marksAt [] views place = [] := by
      rw [marksAt]
      cases rowAt views place <;> rfl
    refine ⟨[], rfl, ?_, ?_, ?_⟩
    · intro run member place _
      rw [List.mem_singleton.mp member]
      simp [same]
    · exact fun place member => ⟨_, List.mem_singleton_self _, member⟩
    · simpa using places_nodup views
  · obtain ⟨terms, resolved, ran⟩ := except_bind_ok ran
    obtain ⟨pushed, partitioned, ran⟩ := except_bind_ok ran
    obtain rfl := Except.ok.inj ran
    refine ⟨terms, resolved, ?_⟩
    have coded' : ∀ entry ∈ views.zipIdx, entry.1.segment.batch.Coded entry.1.segment.numRows :=
      fun entry member => coded entry.1 (List.mem_of_getElem? (List.mem_zipIdx_iff_getElem?.mp member))
    have sized : (terms.map fun _ => Dictionary.empty).length = terms.length := List.length_map _
    obtain ⟨final, -, known, items⟩ := partitionItems_eq coded' sized
    rw [flatMap_places
      (fun view row => codesIn final (terms.map (GroupTerm.mark view.segment.batch row)))
      views []] at items
    have code (place : Nat × Nat) :
      ((rowAt views place).elim [] fun at_ =>
      codesIn final (terms.map (GroupTerm.mark at_.1.segment.batch at_.2))) =
        codesIn final (marksAt terms views place) := by
      rw [marksAt]
      cases rowAt views place with
      | none => exact List.zipWith_nil_right.symm
      | some at_ => rfl
    simp only [code] at items
    obtain ⟨keys, distinct, reached, runs⟩ :=
      pushRun_fold (partitionItems terms views.zipIdx (terms.map fun _ => .empty))
    rw [← partitionRuns_ok partitioned, items] at runs
    rw [items] at reached
    simp only [List.filter_map, List.map_map, Function.comp_def, List.map_id'] at runs reached
    subst runs
    rw [List.map_map, Function.comp_def]
    refine ⟨?_, fun place member => ?_, ?_⟩
    · intro run member place inside
      obtain ⟨key, -, rfl⟩ := List.mem_map.mp member
      obtain ⟨live, own⟩ := List.mem_filter.mp inside
      refine List.filter_congr fun other live' => ?_
      rw [decide_eq_decide, ← of_decide_eq_true own]
      refine ⟨fun same => ?_, fun same => by rw [same]⟩
      obtain ⟨known', length⟩ := marksAt_known known live'
      obtain ⟨-, length'⟩ := marksAt_known known live
      exact codesIn_inj known' (length'.trans length.symm) same
    · exact ⟨_, List.mem_map.mpr ⟨_, (reached _).mpr (List.mem_map.mpr ⟨place, member, rfl⟩), rfl⟩,
        List.mem_filter.mpr ⟨member, decide_eq_true rfl⟩⟩
    · rw [List.flatten_eq_flatMap, List.flatMap_map]
      refine List.nodup_flatMap.mpr ⟨fun key _ => (places_nodup views).filter _,
        distinct.imp fun {a b} different => ?_⟩
      refine List.disjoint_left.mpr ?_
      intro place left right
      exact different ((of_decide_eq_true (List.mem_filter.mp left).2).symm.trans
        (of_decide_eq_true (List.mem_filter.mp right).2))

/-! ### Cells -/

/-- A view whose columns agree with the schema and whose segment is in the order that storage says.
-/
structure SegmentView.Readable (schema : Schema) (view : SegmentView F) : Prop where
  binds : List.Forall₂ (Column.Binds view.segment.numRows) schema.fields view.segment.batch.columns
  sorted : view.segment.Sorted

theorem Segment.Stored.readable [F64 F] {schema : Schema} {segment : Segment F}
    (stored : segment.Stored schema) (live : Option Bitmap) :
    (⟨segment, live⟩ : SegmentView F).Readable schema := ⟨stored.binds, stored.toSorted⟩

theorem SegmentView.Readable.column {schema : Schema} {view : SegmentView F}
    (readable : view.Readable schema) {index : Nat} {field : Field}
    (declared : schema.fields[index]? = some field) :
    (view.segment.batch.column index).Binds view.segment.numRows field := by
  obtain ⟨inside, rfl⟩ := List.getElem?_eq_some_iff.mp declared
  have inside' : index < view.segment.batch.columns.length := readable.binds.length_eq ▸ inside
  rw [RecordBatch.column, List.getD_eq_getElem _ _ inside']
  exact readable.binds.get inside inside'

theorem SegmentView.Readable.coded {schema : Schema} {view : SegmentView F}
    (readable : view.Readable schema) :
    view.segment.batch.Coded view.segment.numRows := by
  intro index codes validity dictionary column
  by_cases inside : index < view.segment.batch.columns.length
  · have declared :=
      List.getElem?_eq_getElem (readable.binds.length_eq.symm ▸ inside : index < schema.fields.length)
    have binds := readable.column declared
    rw [column] at binds
    exact ⟨binds.length, binds.codes codes validity dictionary rfl⟩
  · rw [RecordBatch.column, List.getD_eq_default _ _ (Nat.not_lt.mp inside)] at column
    cases column

theorem Schema.resolve_declared {schema : Schema} {name : String} {index : Nat} {field : Field}
    (resolved : schema.resolve name = .ok (index, field)) : schema.fields[index]? = some field := by
  unfold Schema.resolve at resolved
  split at resolved
  · next field' index' found =>
    obtain ⟨rfl, rfl⟩ := Prod.mk.inj (Except.ok.inj resolved)
    exact List.mem_zipIdx_iff_getElem?.mp (List.mem_of_find?_eq_some found)
  · cases resolved

section Cells

variable [F64 F]

def cellAt (views : List (SegmentView F)) (index : Nat) (place : Nat × Nat) : RowValue F :=
  (rowAt views place).elim .null fun at_ => cellValue (at_.1.segment.batch.column index) at_.2

def cellNamed (schema : Schema) (views : List (SegmentView F)) (name : String)
    (place : Nat × Nat) : RowValue F :=
  match schema.resolve name with
  | .ok (index, _) => cellAt views index place
  | .error _ => .null

def outputAt (columns : List (Column F)) (place : Nat × Nat) : RowValue F :=
  cellValue (columns.getD place.1 (.f64 [] none)) place.2

omit [F64 F] in
theorem rowAt_some {views : List (SegmentView F)} {place : Nat × Nat} (live : place ∈ places views) :
    ∃ view row, views[place.1]? = some view ∧ view.liveIndices[place.2]? = some row ∧
    rowAt views place = some (view, row) := by
  obtain ⟨at_, here⟩ := Option.isSome_iff_exists.mp (mem_places.mp live)
  obtain ⟨view, found, row, position, rfl⟩ : ∃ view, views[place.1]? = some view ∧
      ∃ row, view.liveIndices[place.2]? = some row ∧ (view, row) = at_ := by
    simpa [rowAt, Option.bind_eq_some_iff] using here
  exact ⟨view, row, found, position, here⟩

omit [F64 F] in
theorem atPlace_map {α : Type} (fallback : α) {views : List (SegmentView F)}
    {values : List (List α)} {f : SegmentView F → Nat → α}
    (each : List.Forall₂ (fun view own => own = view.liveIndices.map (f view)) views values)
    {place : Nat × Nat} {view : SegmentView F} {row : Nat}
    (found : views[place.1]? = some view) (position : view.liveIndices[place.2]? = some row) :
    atPlace fallback values place = f view row := by
  obtain ⟨inside, rfl⟩ := List.getElem?_eq_some_iff.mp found
  have inside' : place.1 < values.length := each.length_eq ▸ inside
  have own := each.get inside inside'
  simp only [List.get_eq_getElem] at own
  rw [atPlace, List.getD_eq_getElem _ _ inside', own, List.getD_eq_getElem?_getD, List.getElem?_map,
    position, Option.map_some, Option.getD_some]

theorem argumentColumn_ok {schema : Schema} {view : SegmentView F} (readable : view.Readable schema)
    {index : Nat} {field : Field} {name : String}
    (declared : schema.fields[index]? = some field) {values : List F}
    (ran : argumentColumn index name view = .ok values) :
    values = view.liveIndices.map
      (fun row => (cellValue (view.segment.batch.column index) row).asF64.getD F64.zero) ∧
      ∀ row ∈ view.liveIndices,
      (cellValue (view.segment.batch.column index) row).asF64.isSome = true := by
  have binds := readable.column declared
  unfold argumentColumn at ran
  cases column : view.segment.batch.column index with
  | i64 values validity => rw [column] at ran; cases ran
  | key codes validity dictionary => rw [column] at ran; cases ran
  | f64 stored validity =>
    rw [column] at ran binds
    dsimp only at ran
    split at ran
    · cases ran
    next valid =>
    have length : stored.length = view.segment.numRows := binds.length
    have cell (row : Nat) (live : row ∈ view.liveIndices) : cellValue (.f64 stored validity) row =
        .f64 (stored.getD row F64.zero) := by
      refine if_pos ?_
      cases validity with
      | none => rfl
      | some bits =>
        have all : ∀ row ∈ view.liveIndices, Bitmap.validAt (some bits) row = true := by
          simpa using valid
        exact all row live
    refine ⟨?_, fun row live => by rw [cell row live]; rfl⟩
    have mapped : view.liveIndices.map
      (fun row => (cellValue (.f64 stored validity) row).asF64.getD F64.zero) =
        view.liveIndices.map (stored.getD · F64.zero) :=
          List.map_congr_left fun row live => by rw [cell row live]; rfl
    rw [mapped]
    split at ran
    · next whole =>
      obtain rfl := Except.ok.inj ran
      have every : view.liveIndices = List.range stored.length := by
        rw [SegmentView.liveIndices, length, List.filter_eq_self]
        intro row _
        rw [SegmentView.isLive, Option.isNone_iff_eq_none.mp whole]
        rfl
      rw [every]
      refine List.ext_getElem (by simp) fun row low high => ?_
      simp [List.getD_eq_getElem?_getD, low]
    · exact (Except.ok.inj ran).symm

theorem argumentValues_at {schema : Schema} {views : List (SegmentView F)}
    (readable : ∀ view ∈ views, view.Readable schema) {index : Nat} {field : Field}
    {name : String} (declared : schema.fields[index]? = some field) {values : List (List F)}
    (ran : argumentValues views index name = .ok values)
    {place : Nat × Nat} (live : place ∈ places views) : cellAt views index place = .f64
      (atPlace F64.zero values place) := by
  obtain ⟨view, row, found, position, here⟩ := rowAt_some live
  have related : List.Forall₂ (fun view own => own = view.liveIndices.map
      (fun row => (cellValue (view.segment.batch.column index) row).asF64.getD F64.zero))
      views values := by
    refine forall₂_imp_left (except_mapM_ok ran) fun view member own ran => ?_
    exact (argumentColumn_ok (readable view member) declared ran).1
  obtain ⟨own, -, ran⟩ := forall₂_get (except_mapM_ok ran) found
  have member := List.mem_of_getElem? found
  have typed := (argumentColumn_ok (readable view member) declared ran).2 row
    (List.mem_of_getElem? position)
  rw [atPlace_map _ related found position, cellAt, here, Option.elim_some]
  cases cell : cellValue (view.segment.batch.column index) row with
  | f64 value => rfl
  | _ => rw [cell] at typed; cases typed

end Cells

/-! ### Landing -/

section Landing

variable [F64 F]

theorem cellValue_assembleF64 {results : List (Option F)} {j : Nat} {value : Option F}
    (here : results[j]? = some value) :
    cellValue (assembleF64 results) j = value.elim .null .f64 := by
  obtain ⟨inside, rfl⟩ := List.getElem?_eq_some_iff.mp here
  have valid := @validAt_assembled (results.map Option.isSome) j (by simpa using inside)
  rw [List.getElem_map] at valid
  unfold cellValue
  rw [show (assembleF64 results).isValid j = _ from valid]
  cases own : results[j] with
  | none => rfl
  | some value => simp [assembleF64, List.getD_eq_getElem?_getD, inside, own]

theorem cellValue_assembleI64 {results : List (Option Int64)} {j : Nat} {value : Option Int64}
    (here : results[j]? = some value) :
    cellValue (assembleI64 results : Column F) j = value.elim .null .i64 := by
  obtain ⟨inside, rfl⟩ := List.getElem?_eq_some_iff.mp here
  have valid := @validAt_assembled (results.map Option.isSome) j (by simpa using inside)
  rw [List.getElem_map] at valid
  unfold cellValue
  rw [show (assembleI64 results : Column F).isValid j = _ from valid]
  cases own : results[j] with
  | none => rfl
  | some value => simp [assembleI64, List.getD_eq_getElem?_getD, inside, own]

omit [F64 F] in
/-- What has landed on a live row is there. -/
theorem scatterResults_get {α : Type} (fallback : α) {views : List (SegmentView F)}
    {landed : List ((Nat × Nat) × α)}
    (once : (landed.map Prod.fst).Nodup) {place : Nat × Nat} (live : place ∈ places views)
    {value : α} (lands : (place, value) ∈ landed) :
    ∃ own, (scatterResults fallback views landed)[place.1]? = some own ∧
    own[place.2]? = some value := by
  obtain ⟨view, row, found, position, -⟩ := rowAt_some live
  have inside : place.2 < view.liveIndices.length := (List.getElem?_eq_some_iff.mp position).1
  have entry : views.zipIdx[place.1]? = some (view, place.1) := by
    simp [List.getElem?_zipIdx, found]
  have looked : landed.lookup place = some value := by
    obtain ⟨front, back, rfl⟩ := List.append_of_mem lands
    refine List.lookup_eq_some_iff.mpr ⟨front, back, rfl, fun other member => ?_⟩
    rw [List.map_append, List.map_cons] at once
    have apart := (List.nodup_append.mp once).2.2 other.1 (List.mem_map.mpr ⟨other, member, rfl⟩)
      place List.mem_cons_self
    simpa using fun same : place = other.1 => apart same.symm
  refine ⟨_, by rw [scatterResults, List.getElem?_map, entry, Option.map_some], ?_⟩
  simp [List.getElem?_range inside, looked]

omit [F64 F] in
theorem scatterResults_shape {α : Type} (fallback : α) (views : List (SegmentView F))
    (landed : List ((Nat × Nat) × α)) :
    (scatterResults fallback views landed).map List.length = views.map (·.liveIndices.length) := by
  rw [scatterResults, List.map_map]
  conv_rhs => rw [← List.zipIdx_map_fst 0 views, List.map_map]
  refine List.map_congr_left fun entry _ => ?_
  simp

omit [F64 F] in
theorem map_places {α : Type} (f : SegmentView F → Nat → α) (views : List (SegmentView F))
    (fallback : α) :
    (places views).map (fun place => (rowAt views place).elim fallback fun at_ => f at_.1 at_.2) =
      views.flatMap fun view => view.liveIndices.map (f view) := by
  have both := congrArg (List.map Prod.fst) (flatMap_places f views fallback)
  rw [List.map_map, Function.comp_def, List.map_flatMap] at both
  rw [← both]
  conv_rhs => rw [← List.zipIdx_map_fst 0 views, List.flatMap_map]
  refine List.flatMap_congr fun entry _ => ?_
  rw [List.map_map]
  conv_rhs => rw [← List.zipIdx_map_fst 0 entry.1.liveIndices, List.map_map]
  rfl

end Landing

/-! ### What a window gives a row -/

section Gives

/-- The key that a window orders a live row by; without an order there is none. -/
def orderKey (schema : Schema) (views : List (SegmentView F)) (orderBy : Option String)
    (place : Nat × Nat) : Int64 :=
  match orderBy.map schema.resolve with
  | some (.ok (index, _)) =>
      (rowAt views place).elim 0 fun at_ =>
        (orderingClocks (at_.1.segment.batch.column index)).getD at_.2 0
  | _ => 0

theorem orderKey_sorted {schema : Schema} {views : List (SegmentView F)}
    (readable : ∀ view ∈ views, view.Readable schema) {orderBy : String}
    {index : Nat} {field : Field} (resolved : schema.resolve orderBy = .ok (index, field))
    (ordered : checkOrder views index orderBy = .ok ()) :
    ((places views).map (orderKey schema views (some orderBy))).Pairwise (· ≤ ·) := by
  have fine : orderingProblem views index = none := by
    unfold checkOrder at ordered
    cases problem : orderingProblem views index with
    | none => rfl
    | some disorder => rw [problem] at ordered; cases disorder <;> cases ordered
  have clocks : (places views).map (orderKey schema views (some orderBy)) = views.flatMap
      (·.liveClocks index) := by
    rw [show orderKey schema views (some orderBy) = fun place =>
      (rowAt views place).elim 0 fun at_ =>
      (orderingClocks (at_.1.segment.batch.column index)).getD at_.2 0 by
        funext place
        rw [orderKey, Option.map_some, resolved]]
    exact map_places (fun view row => (orderingClocks (view.segment.batch.column index)).getD row 0)
      views 0
  rw [clocks]
  exact (ordered_after (fun view member => (readable view member).sorted) fine).1

variable [F64 F]

def windowCell (columnType : ColumnType) (value : Option F) : RowValue F :=
  value.elim .null fun value => if columnType = .i64 then .i64 (truncateI64 value) else .f64 value

/-- An aggregate's cell at a row of a run: of the answers to the standard frames of the run's rows,
the one for that row. -/
def AggregateCell (schema : Schema) (views : List (SegmentView F)) (aggregate : WindowAggregate F)
    (args : List String)
    (orderBy : Option String) (frame : Frame) (columnType : ColumnType) (run : RowRun)
    (place : Nat × Nat) (cell : RowValue F) : Prop :=
  ∃ (i : Nat) (arguments : List (List F)) (frames : List (Nat × Nat)) (results :
    List (Option F)) (value : Option F), run[i]? = some place ∧
    List.Forall₂ (fun name own => run.map (cellNamed schema views name) = own.map .f64) args arguments ∧
    aggregate.Answers arguments frame (run.map (orderKey schema views orderBy)) frames results ∧
    results[i]? = some value ∧ cell = windowCell columnType value

/-- The cell of the row so many rows away in the run, a null where there is none. -/
def ValueCell (schema : Schema) (views : List (SegmentView F)) (lead : Bool) (column : String)
    (offset : Nat) (run : RowRun) (place : Nat × Nat)
    (cell : RowValue F) : Prop :=
  ∃ i, run[i]? = some place ∧
    cell = (if lead then run[i + offset]? else if offset ≤ i then run[i - offset]? else none).elim
      .null (cellNamed schema views column)

end Gives

/-! ### Window calls -/

section Calls

/-- The keys of a run of live rows never decrease. -/
theorem RunsByMark.sorted {terms : List GroupTerm} {views : List (SegmentView F)}
    {runs : List RowRun} (byMark : RunsByMark terms views runs)
    {key : Nat × Nat → Int64} (sorted : ((places views).map key).Pairwise (· ≤ ·)) {run : RowRun}
    (member : run ∈ runs) :
    (run.map key).Pairwise (· ≤ ·) := by
  cases run with
  | nil => exact .nil
  | cons place rest =>
    rw [byMark.alike _ member place List.mem_cons_self]
    exact sorted.sublist (List.filter_sublist.map key)

theorem RunsByMark.live {terms : List GroupTerm} {views : List (SegmentView F)} {runs : List RowRun}
    (byMark : RunsByMark terms views runs)
    {run : RowRun} (member : run ∈ runs) {place : Nat × Nat} (inside : place ∈ run) :
    place ∈ places views := by
  rw [byMark.alike _ member place inside] at inside
  exact (List.mem_filter.mp inside).1

variable [F64Math F]

def WindowKeys (schema : Schema) (views : List (SegmentView F)) (keys : List (List Int64)) :
    Option String → Prop
  | none => keys = views.map fun view => List.replicate view.liveIndices.length 0
  | some orderBy =>
      ∃ index field, schema.resolve orderBy = .ok (index, field) ∧
        checkOrder views index orderBy = .ok () ∧
      keys = orderingValues views index

theorem windowAggregate_ok {schema : Schema} {views : List (SegmentView F)} {registry : Registry F}
    {function : String} {args : List String}
    {partitionBy : List GroupKey} {orderBy : Option String} {frame : Frame} {as : Option String}
    {field : Field} {columns : List (Column F)}
    (ran : windowAggregate schema views registry function args partitionBy orderBy frame as =
      .ok (field, columns)) :
    ∃ aggregate keys values runs landed, registry.window function = .ok aggregate ∧
    WindowKeys schema views keys orderBy ∧
      (args.mapM fun name => schema.resolve name >>= fun found =>
        argumentValues views found.1 name) = .ok values ∧
      valueRuns schema views partitionBy = .ok runs ∧ runs.mapM
        (landRun aggregate values keys frame) = .ok landed ∧
      field = .new (as.getD function) aggregate.outputType true ∧
      columns = (scatterResults none views landed.flatten).map fun result =>
        if aggregate.outputType = .i64 then assembleI64
          (result.map fun value => value.map truncateI64) else assembleF64 result := by
  unfold windowAggregate at ran
  obtain ⟨aggregate, registered, ran⟩ := except_bind_ok ran
  split at ran
  · cases ran
  cases orderBy with
  | none =>
    obtain ⟨keys, same, ran⟩ := except_bind_ok ran
    obtain ⟨values, arguments, ran⟩ := except_bind_ok ran
    obtain ⟨runs, ranRuns, ran⟩ := except_bind_ok ran
    obtain ⟨landed, landing, ran⟩ := except_bind_ok ran
    obtain ⟨rfl, rfl⟩ := Prod.mk.inj (Except.ok.inj ran)
    exact ⟨aggregate, keys, values, runs, landed, registered, (Except.ok.inj same).symm, arguments,
      ranRuns, landing, rfl, rfl⟩
  | some orderBy =>
    obtain ⟨found, resolved, ran⟩ := except_bind_ok ran
    obtain ⟨⟨⟩, checked, ran⟩ := except_bind_ok ran
    obtain ⟨keys, same, ran⟩ := except_bind_ok ran
    obtain ⟨values, arguments, ran⟩ := except_bind_ok ran
    obtain ⟨runs, ranRuns, ran⟩ := except_bind_ok ran
    obtain ⟨landed, landing, ran⟩ := except_bind_ok ran
    obtain ⟨rfl, rfl⟩ := Prod.mk.inj (Except.ok.inj ran)
    exact ⟨aggregate, keys, values, runs, landed, registered,
      ⟨found.1, found.2, resolved, checked, (Except.ok.inj same).symm⟩, arguments, ranRuns,
      landing, rfl, rfl⟩

omit [F64Math F] in
theorem WindowKeys.at_place {schema : Schema} {views : List (SegmentView F)}
    {keys : List (List Int64)} {orderBy : Option String}
    (known : WindowKeys schema views keys orderBy) {place : Nat × Nat} (live : place ∈ places views) :
    atPlace 0 keys place = orderKey schema views orderBy place := by
  obtain ⟨view, row, found, position, here⟩ := rowAt_some live
  cases orderBy with
  | none =>
    obtain rfl := known
    refine (@atPlace_map _ _ 0 views _ (fun _ _ => 0) ?_ place view row found position).trans rfl
    rw [List.forall₂_map_right_iff, List.forall₂_same]
    exact fun view _ => List.map_const'.symm
  | some orderBy =>
    obtain ⟨index, field, resolved, -, rfl⟩ := known
    rw [orderKey, Option.map_some, resolved]
    dsimp only
    rw [here, Option.elim_some]
    refine @atPlace_map _ _ 0 views _
      (fun view row => (orderingClocks (view.segment.batch.column index)).getD row 0) ?_ place view
      row found position
    rw [orderingValues, List.forall₂_map_right_iff, List.forall₂_same]
    exact fun _ _ => rfl

omit [F64Math F] in
theorem WindowKeys.sorted {schema : Schema} {views : List (SegmentView F)}
    (readable : ∀ view ∈ views, view.Readable schema)
    {keys : List (List Int64)} {orderBy : Option String}
    (known : WindowKeys schema views keys orderBy) :
    ((places views).map (orderKey schema views orderBy)).Pairwise (· ≤ ·) := by
  cases orderBy with
  | none =>
    rw [List.pairwise_map]
    exact List.pairwise_of_forall fun _ _ => Int64.le_refl 0
  | some orderBy =>
    obtain ⟨index, field, resolved, checked, -⟩ := known
    exact orderKey_sorted readable resolved checked

/-- A run's results land on its rows, each on the row of its frame. -/
theorem landRun_spec {aggregate : WindowAggregate F} {terms : List GroupTerm}
    {views : List (SegmentView F)} {runs : List RowRun}
    (byMark : RunsByMark terms views runs) {values : List (List (List F))}
    {keys : List (List Int64)} {key : Nat × Nat → Int64}
    (known : ∀ place ∈ places views, atPlace 0 keys place = key place)
    (sorted : ((places views).map key).Pairwise (· ≤ ·)) {frame : Frame} :
    ∀ run ∈ runs, ∀ landed, landRun aggregate values keys frame run = .ok landed →
    landed.map Prod.fst = run ∧
      ∃ frames results, aggregate.Answers
        (values.map fun arg => run.map (atPlace F64.zero arg)) frame (run.map key) frames results ∧
        ∀ (i : Nat) place, run[i]? = some place → ∃ value, results[i]? = some value ∧
        (place, value) ∈ landed := by
  intro run member landed ran
  obtain ⟨results, evaluated, ran⟩ := except_bind_ok ran
  obtain rfl := Except.ok.inj ran
  have same : run.map (atPlace 0 keys) = run.map key :=
    List.map_congr_left fun place inside => known place (byMark.live member inside)
  have length : run.length = (run.map key).length := (List.length_map _).symm
  rw [same, length] at evaluated
  obtain ⟨frames, answers⟩ := evaluateRun_spec (byMark.sorted sorted member) evaluated
  have sized := answers.sized
  rw [← length] at sized
  refine ⟨List.map_fst_zip (Nat.le_of_eq sized.symm), frames, results, answers, fun i place here => ?_⟩
  obtain ⟨inside, rfl⟩ := List.getElem?_eq_some_iff.mp here
  have inside' : i < results.length := sized.symm ▸ inside
  exact ⟨results[i], List.getElem?_eq_getElem inside', List.mem_iff_getElem.mpr ⟨i, by
      simp [inside, inside'], by simp⟩⟩

omit [F64Math F] in
theorem windowArguments_at [F64 F] {schema : Schema} {views : List (SegmentView F)}
    (readable : ∀ view ∈ views, view.Readable schema) {args : List String}
    {values : List (List (List F))}
    (arguments : (args.mapM fun name => schema.resolve name >>= fun found =>
      argumentValues views found.1 name) = .ok values)
    {terms : List GroupTerm} {runs : List RowRun} (byMark : RunsByMark terms views runs)
    {run : RowRun} (member : run ∈ runs) :
    List.Forall₂ (fun name own => run.map (cellNamed schema views name) = own.map .f64) args
      (values.map fun arg => run.map (atPlace F64.zero arg)) := by
  rw [List.forall₂_map_right_iff]
  refine (except_mapM_ok arguments).imp fun name arg ran => ?_
  obtain ⟨⟨index, field⟩, resolved, ran⟩ := except_bind_ok ran
  rw [List.map_map]
  refine List.map_congr_left fun place inside => ?_
  rw [cellNamed, resolved]
  exact argumentValues_at readable (Schema.resolve_declared resolved) ran (byMark.live member inside)

/-- Every row of a run gets the answer to its frame in the run. -/
theorem windowAggregate_gives {schema : Schema} {views : List (SegmentView F)}
    (readable : ∀ view ∈ views, view.Readable schema)
    {registry : Registry F} {function : String}
    {args : List String} {partitionBy : List GroupKey} {orderBy : Option String} {frame : Frame}
    {as : Option String} {field : Field}
    {columns : List (Column F)}
    (ran : windowAggregate schema views registry function args partitionBy orderBy frame as =
      .ok (field, columns)) :
    ∃ terms runs, partitionBy.mapM (resolvePartitionKey schema (orderingKeyOfViews views)) = .ok terms ∧
      valueRuns schema views partitionBy = .ok runs ∧ RunsByMark terms views runs ∧
      columns.map Column.length = views.map (·.liveIndices.length) ∧ ∀ run ∈ runs, ∀ place ∈ run,
        ∃ aggregate, registry.window function = .ok aggregate ∧
          AggregateCell schema views aggregate args orderBy frame field.columnType run place
            (outputAt columns place) := by
  obtain ⟨aggregate, keys, values, runs, landed, registered, known, arguments, ranRuns, landing,
    rfl, rfl⟩ := windowAggregate_ok ran
  obtain ⟨terms, resolved, byMark⟩ :=
    valueRuns_byMark (fun view member => (readable view member).coded) ranRuns
  refine ⟨terms, runs, resolved, ranRuns, byMark, ?_, fun run member place inside =>
    ⟨aggregate, registered, ?_⟩⟩
  · rw [← scatterResults_shape none views landed.flatten, List.map_map]
    refine List.map_congr_left fun result _ => ?_
    simp only [Function.comp_apply]
    split <;> simp [assembleI64, assembleF64, Column.length]
  · have each := forall₂_imp_left (except_mapM_ok landing)
      (landRun_spec byMark (fun place live => known.at_place live) (known.sorted readable))
    obtain ⟨i, here⟩ := List.getElem?_of_mem inside
    obtain ⟨at_, index⟩ := List.getElem?_of_mem member
    obtain ⟨own, own_, whole, frames, results, answers, lands⟩ := forall₂_get each index
    obtain ⟨value, result, lands⟩ := lands i place here
    have once : (landed.flatten.map Prod.fst).Nodup := by
      rw [List.map_flatten, ← forall₂_map_eq (forall₂_imp_left each fun run _ own lands => lands.1)]
      exact byMark.once
    obtain ⟨scattered, column, value_⟩ := scatterResults_get none once (byMark.live member inside)
      (List.mem_flatten.mpr ⟨own, List.mem_of_getElem? own_, lands⟩)
    refine ⟨i, _, frames, results, value, here, windowArguments_at readable arguments byMark member,
      answers, result, ?_⟩
    rw [outputAt, List.getD_eq_getElem?_getD, List.getElem?_map, column, Option.map_some,
      Option.getD_some, Field.new, windowCell]
    by_cases integral : aggregate.outputType = .i64
    · rw [if_pos integral, cellValue_assembleI64 (by rw [List.getElem?_map, value_, Option.map_some])]
      cases value with
      | none => rfl
      | some value => simp [integral]
    · rw [if_neg integral, cellValue_assembleF64 value_]
      cases value with
      | none => rfl
      | some value => simp [integral]

omit [F64Math F] in
/-- A numeric column's cell is a number of its type or a null. -/
theorem cellNamed_typed [F64 F] {schema : Schema} {views : List (SegmentView F)}
    (readable : ∀ view ∈ views, view.Readable schema) {column : String}
    {index : Nat} {field : Field} (resolved : schema.resolve column = .ok (index, field))
    (numeric : field.columnType ≠ .key) {place : Nat × Nat}
    (live : place ∈ places views) :
    cellNamed schema views column place = if field.columnType = .i64 then
      (cellNamed schema views column place).asI64.elim .null .i64
      else (cellNamed schema views column place).asF64.elim .null .f64 := by
  obtain ⟨view, row, found, position, here⟩ := rowAt_some live
  have typed := ((readable view (List.mem_of_getElem? found)).column
    (Schema.resolve_declared resolved)).typed
  rw [cellNamed, resolved]
  dsimp only
  rw [cellAt, here, Option.elim_some]
  unfold cellValue
  cases column : view.segment.batch.column index with
  | f64 values validity =>
    have typed : ColumnType.f64 = field.columnType := by rw [← typed, column]; rfl
    rw [← typed, if_neg (show ColumnType.f64 ≠ .i64 by decide)]
    split <;> rfl
  | i64 values validity =>
    have typed : ColumnType.i64 = field.columnType := by rw [← typed, column]; rfl
    rw [← typed, if_pos rfl]
    split <;> rfl
  | key codes validity dictionary =>
    rw [column] at typed
    exact absurd typed.symm numeric

omit [F64Math F] in
/-- What is computed for the rows of the runs one by one lands on them. -/
theorem landing_get {α : Type} (f : RowRun → Nat → α) (fallback : α) {terms : List GroupTerm}
    {views : List (SegmentView F)} {runs : List RowRun}
    (byMark : RunsByMark terms views runs) {run : RowRun} (member : run ∈ runs) {i : Nat}
    {place : Nat × Nat} (here : run[i]? = some place) :
    ∃ own, (scatterResults fallback views
      (runs.flatMap fun run => run.zipIdx.map fun at_ => (at_.1, f run at_.2)))[place.1]? = some own ∧
      own[place.2]? = some (f run i) := by
  refine scatterResults_get fallback ?_ (byMark.live member (List.mem_of_getElem? here)) ?_
  · have rows : ((runs.flatMap fun run => run.zipIdx.map fun at_ => (at_.1, f run at_.2)).map
        Prod.fst) = runs.flatten := by
      rw [List.map_flatMap, List.flatten_eq_flatMap]
      refine List.flatMap_congr fun run _ => ?_
      rw [List.map_map]
      exact List.zipIdx_map_fst 0 run
    rw [rows]
    exact byMark.once
  · exact List.mem_flatMap.mpr
      ⟨run, member, List.mem_map.mpr ⟨(place, i), List.mem_zipIdx_iff_getElem?.mpr here, rfl⟩⟩

theorem sourcePosition_get (lead : Bool) (offset i : Nat) (run : RowRun) :
    ((sourcePosition lead offset run.length i).bind (run[·]?)) =
    if lead then run[i + offset]? else if offset ≤ i then run[i - offset]? else none := by
  unfold sourcePosition
  cases lead with
  | false =>
    simp only [Bool.false_eq_true, if_false]
    split <;> rfl
  | true =>
    simp only [if_true]
    split
    · rfl
    · next beyond => exact (List.getElem?_eq_none (Nat.not_lt.mp beyond)).symm

theorem mem_of_offset {lead : Bool} {offset i : Nat} {run : RowRun} {other : Nat × Nat}
    (from_ : (if lead then run[i + offset]? else if offset ≤ i then run[i - offset]? else none) =
      some other) : other ∈ run := by
  split at from_
  · exact List.mem_of_getElem? from_
  · split at from_
    · exact List.mem_of_getElem? from_
    · cases from_

omit [F64Math F] in
theorem windowValue_typed [F64 F] {schema : Schema} {views : List (SegmentView F)}
    (readable : ∀ view ∈ views, view.Readable schema) {column : String}
    {index : Nat} {field : Field} (resolved : schema.resolve column = .ok (index, field))
    (numeric : field.columnType ≠ .key)
    {terms : List GroupTerm} {runs : List RowRun} (byMark : RunsByMark terms views runs)
    {run : RowRun} (member : run ∈ runs)
    (lead : Bool) (offset i : Nat) {cell : RowValue F}
    (reads : cell = (if lead then run[i + offset]? else if offset ≤
      i then run[i - offset]? else none).elim .null (cellNamed schema views column)) :
    cell = if field.columnType = .i64 then cell.asI64.elim .null .i64 else cell.asF64.elim
      .null .f64 := by
  cases from_ : (if lead then run[i + offset]? else if offset ≤ i then run[i - offset]? else none) with
  | none =>
    rw [from_] at reads
    subst reads
    split <;> rfl
  | some other =>
    rw [from_] at reads
    subst reads
    exact cellNamed_typed readable resolved numeric (byMark.live member (mem_of_offset from_))

omit [F64Math F] in
/-- Every row of a run gets the cell of the row at the offset in the run. -/
theorem windowValue_gives [F64 F] {schema : Schema} {views : List (SegmentView F)}
    (readable : ∀ view ∈ views, view.Readable schema) {lead : Bool}
    {column : String} {offset : Nat} {partitionBy : List GroupKey} {orderBy : String}
    {as : Option String} {field : Field}
    {columns : List (Column F)}
    (ran : windowValue schema views lead column offset partitionBy orderBy as = .ok (field, columns)) :
    ∃ terms runs, partitionBy.mapM (resolvePartitionKey schema (orderingKeyOfViews views)) = .ok terms ∧
      valueRuns schema views partitionBy = .ok runs ∧ RunsByMark terms views runs ∧
      columns.map Column.length = views.map (·.liveIndices.length) ∧ ∀ run ∈ runs, ∀ place ∈ run,
        ValueCell schema views lead column offset run place (outputAt columns place) := by
  unfold windowValue at ran
  obtain ⟨⟨index, source⟩, resolved, ran⟩ := except_bind_ok ran
  dsimp only at ran
  split at ran
  · cases ran
  next numeric =>
  obtain ⟨⟨orderIndex, order⟩, resolvedOrder, ran⟩ := except_bind_ok ran
  obtain ⟨⟨⟩, checked, ran⟩ := except_bind_ok ran
  obtain ⟨runs, ranRuns, ran⟩ := except_bind_ok ran
  obtain ⟨rfl, rfl⟩ := Prod.mk.inj (Except.ok.inj ran)
  obtain ⟨terms, resolvedTerms, byMark⟩ :=
    valueRuns_byMark (fun view member => (readable view member).coded) ranRuns
  refine ⟨terms, runs, resolvedTerms, ranRuns, byMark, ?_, fun run member place inside => ?_⟩
  · rw [← scatterResults_shape RowValue.null views, List.map_map]
    refine List.map_congr_left fun result _ => ?_
    simp only [Function.comp_apply]
    split <;> simp [assembleI64, assembleF64, Column.length]
  · have cell (other : Nat × Nat) (live : other ∈ places views) :
        atPlace RowValue.null (views.map fun view => view.liveIndices.map fun row =>
          cellValue (view.segment.batch.column index) row) other =
          cellNamed schema views column other := by
      obtain ⟨view, row, found, position, here⟩ := rowAt_some live
      rw [cellNamed, resolved]
      dsimp only
      rw [cellAt, here, Option.elim_some]
      refine @atPlace_map _ _ RowValue.null views _
        (fun view row => cellValue (view.segment.batch.column index) row) ?_ other view
        row found position
      rw [List.forall₂_map_right_iff, List.forall₂_same]
      exact fun _ _ => rfl
    obtain ⟨i, here⟩ := List.getElem?_of_mem inside
    obtain ⟨results, own, value⟩ :=
      landing_get (fun run position =>
      ((sourcePosition lead offset run.length position).bind (run[·]?)).elim
      RowValue.null (atPlace RowValue.null (views.map fun view => view.liveIndices.map fun row =>
      cellValue (view.segment.batch.column index) row)))
      RowValue.null byMark member here
    refine ⟨i, here, ?_⟩
    have read : ((sourcePosition lead offset run.length i).bind (run[·]?)).elim RowValue.null
        (atPlace RowValue.null (views.map fun view => view.liveIndices.map fun row =>
          cellValue (view.segment.batch.column index) row)) =
        (if lead then run[i + offset]? else if offset ≤ i then run[i - offset]? else none).elim
          .null (cellNamed schema views column) := by
      rw [sourcePosition_get]
      cases from_ : (if lead then run[i + offset]? else if offset ≤
        i then run[i - offset]? else none) with
      | none => rfl
      | some other => exact cell other (byMark.live member (mem_of_offset from_))
    have typed := windowValue_typed readable resolved numeric byMark member lead offset i read
    rw [← read]
    refine Eq.trans ?_ typed.symm
    unfold outputAt
    rw [List.getD_eq_getElem?_getD, List.getElem?_map]
    erw [own]
    rw [Option.map_some, Option.getD_some]
    split
    · exact cellValue_assembleI64 (by rw [List.getElem?_map, value, Option.map_some])
    · exact cellValue_assembleF64 (by rw [List.getElem?_map, value, Option.map_some])

end Calls

/-! ### Partitions by value -/

inductive PartitionValue where
  | null
  | text (value : String)
  | integer (value : Int)
  deriving DecidableEq

/-- A symbol is its text and an integer itself. A bucket is the key's quotient times its multiplier.
-/
def GroupKey.valueOf : GroupKey → RowValue F → PartitionValue
  | .column _, .key value => .text value
  | .column _, .i64 value => .integer value.toInt
  | .bucket _ divide multiply, .i64 value =>
      .integer (value.toInt.tdiv divide.toInt * multiply.elim 1 Int64.toInt)
  | _, _ => .null

def WindowCall.partitionBy : WindowCall → List GroupKey
  | .agg _ _ partitionBy _ _ => partitionBy
  | .value _ _ _ partitionBy _ => partitionBy

/-- Without an order the planner leaves the whole partition as the frame. -/
def WindowCall.Planned : WindowCall → Prop
  | .agg _ _ _ orderBy frame => orderBy = none → frame = .partition
  | .value _ _ _ _ _ => True

section Partitions

variable [F64 F]

def partitionAt (schema : Schema) (views : List (SegmentView F)) (partitionBy : List GroupKey)
    (place : Nat × Nat) : List PartitionValue :=
  partitionBy.map fun key => key.valueOf (cellNamed schema views key.columnName place)

/-- The live rows of the same partition, in order. -/
def partitionOf (schema : Schema) (views : List (SegmentView F)) (partitionBy : List GroupKey)
    (place : Nat × Nat) : RowRun :=
  (places views).filter fun other => partitionAt schema views partitionBy other =
    partitionAt schema views partitionBy place

/-- The runs are the partitions. -/
def RunsByValue (schema : Schema) (views : List (SegmentView F)) (partitionBy : List GroupKey)
    (runs : List RowRun) : Prop :=
  (∀ place ∈ places views, ∃ run ∈ runs, place ∈ run) ∧
    ∀ run ∈ runs, ∀ place ∈ run, run = partitionOf schema views partitionBy place

/-- The engine tells two live rows apart exactly if they are of different partitions. -/
def TellsPartitions (terms : List GroupTerm) (schema : Schema) (views : List (SegmentView F))
    (partitionBy : List GroupKey) : Prop :=
  ∀ place ∈ places views, ∀ other ∈ places views,
    marksAt terms views other = marksAt terms views place ↔
      partitionAt schema views partitionBy other = partitionAt schema views partitionBy place

theorem RunsByMark.byValue_iff {terms : List GroupTerm} {schema : Schema}
    {views : List (SegmentView F)} {partitionBy : List GroupKey}
    {runs : List RowRun} (byMark : RunsByMark terms views runs) :
    RunsByValue schema views partitionBy runs ↔ TellsPartitions terms schema views partitionBy := by
  constructor
  · rintro ⟨-, byValue⟩ place live other live'
    obtain ⟨run, member, inside⟩ := byMark.covers place live
    have both := (byMark.alike run member place inside).symm.trans (byValue run member place inside)
    have one : other ∈ (places views).filter
      (fun other => marksAt terms views other = marksAt terms views place) ↔
        other ∈ partitionOf schema views partitionBy place := by rw [both]
    simpa [partitionOf, live'] using one
  · intro tells
    refine ⟨byMark.covers, fun run member place inside => ?_⟩
    refine (byMark.alike run member place inside).trans (List.filter_congr fun other live' => ?_)
    exact decide_eq_decide.mpr (tells place (byMark.live member inside) other live')

def PartitionValue.mark : PartitionValue → Mark
  | .null => .text none
  | .text value => .text (some value)
  | .integer value => .word (Int64.ofInt value)

def PartitionValue.Fits : PartitionValue → Prop
  | .integer value => (Int64.ofInt value).toInt = value
  | _ => True

omit [F64 F] in
theorem PartitionValue.mark_inj {left right : PartitionValue} (fits : left.Fits)
    (fits' : right.Fits) (same : left.mark = right.mark) :
    left = right := by
  rcases left with _ | left | left <;> rcases right with _ | right | right <;>
    simp only [mark, reduceCtorEq, Mark.text.injEq, Mark.word.injEq] at same
  · rfl
  · rw [Option.some.inj same]
  · rw [← fits, ← fits', same]

omit [F64 F] in
theorem PartitionValue.marks_inj {left right : List PartitionValue}
    (fits : ∀ value ∈ left, value.Fits) (fits' : ∀ value ∈ right, value.Fits)
    (same : left.map mark = right.map mark) : left = right := by
  induction left generalizing right with
  | nil => exact (List.map_eq_nil_iff.mp same.symm).symm
  | cons value left ih =>
    cases right with
    | nil => cases same
    | cons other right =>
      obtain ⟨first, rest⟩ := List.cons.inj same
      rw [mark_inj (fits value List.mem_cons_self) (fits' other List.mem_cons_self) first,
        ih (fun v member => fits v (List.mem_cons_of_mem _ member))
        (fun v member => fits' v (List.mem_cons_of_mem _ member)) rest]

/-- A key's value at a live row has no null, and fits a word if it is a bucket. -/
structure GroupKey.Exact (key : GroupKey) (cell : RowValue F) : Prop where
  present : cell ≠ .null
  bucket : ∀ name divide multiply value, key = .bucket name divide multiply → cell = .i64 value →
    (GroupTerm.bucketValue divide multiply value).toInt = value.toInt.tdiv divide.toInt *
      multiply.elim 1 Int64.toInt

theorem resolvePartitionKey_mark {schema : Schema} {view : SegmentView F}
    (readable : view.Readable schema) {orderingKey : Option Nat} {key : GroupKey}
    {term : GroupTerm} (resolved : resolvePartitionKey schema orderingKey key = .ok term)
    {row : Nat} {cell : RowValue F}
    (read : ∀ index field, schema.resolve key.columnName = .ok (index, field) →
      cell = cellValue (view.segment.batch.column index) row)
    (exact : key.Exact cell) : term.mark view.segment.batch row = (key.valueOf cell).mark ∧
    (key.valueOf cell).Fits := by
  unfold resolvePartitionKey at resolved
  obtain ⟨⟨index, field⟩, found, resolved⟩ := except_bind_ok resolved
  have typed := (readable.column (Schema.resolve_declared found)).typed
  have cell_ := read index field found
  unfold cellValue at cell_
  by_cases valid : (view.segment.batch.column index).isValid row = true
  swap
  · exact absurd (cell_.trans (if_neg valid)) exact.present
  rw [if_pos valid] at cell_
  cases key with
  | column name =>
    dsimp only at resolved
    cases column : view.segment.batch.column index with
    | f64 values validity =>
      rw [← typed, column] at resolved
      cases resolved
    | i64 values validity =>
      rw [← typed, column] at resolved
      obtain rfl := Except.ok.inj resolved
      rw [column] at cell_
      subst cell_
      refine ⟨?_, congrArg Int64.toInt (Int64.ofInt_toInt _)⟩
      simp [GroupTerm.mark, GroupTerm.bucketValue, column, orderingClocks, GroupKey.valueOf,
        PartitionValue.mark]
    | key codes validity dictionary =>
      rw [← typed, column] at resolved
      obtain rfl := Except.ok.inj resolved
      rw [column] at cell_ valid
      subst cell_
      refine ⟨?_, trivial⟩
      have valid : Bitmap.validAt validity row = true := valid
      simp [GroupTerm.mark, column, Column.valueAt, valid, GroupKey.valueOf, PartitionValue.mark]
  | bucket name divide multiply =>
    dsimp only at resolved
    split at resolved
    · cases resolved
    next accepted =>
    obtain rfl := Except.ok.inj resolved
    cases column : view.segment.batch.column index with
    | f64 values validity =>
      rw [← typed, column] at accepted
      simp [Column.columnType] at accepted
    | key codes validity dictionary =>
      rw [← typed, column] at accepted
      simp [Column.columnType] at accepted
    | i64 values validity =>
      rw [column] at cell_
      subst cell_
      have same := exact.bucket name divide multiply _ rfl rfl
      refine ⟨?_, ?_⟩
      · simp only [GroupTerm.mark, column, orderingClocks, GroupKey.valueOf, PartitionValue.mark,
          ← same, Int64.ofInt_toInt]
      · simp only [GroupKey.valueOf, PartitionValue.Fits, ← same, Int64.ofInt_toInt]

/-- Where no partition key is null at a live row and no bucket overflows, the engine tells the
partitions apart. -/
theorem exact_tells {schema : Schema} {views : List (SegmentView F)}
    (readable : ∀ view ∈ views, view.Readable schema) {partitionBy : List GroupKey}
    {terms : List GroupTerm}
    (resolved : partitionBy.mapM (resolvePartitionKey schema (orderingKeyOfViews views)) = .ok terms)
    (exact : ∀ place ∈ places views, ∀ key ∈ partitionBy,
      key.Exact (cellNamed schema views key.columnName place)) :
    TellsPartitions terms schema views partitionBy := by
  have marks (place : Nat × Nat) (live : place ∈ places views) :
      marksAt terms views place = (partitionAt schema views partitionBy place).map PartitionValue.mark ∧
        ∀ value ∈ partitionAt schema views partitionBy place, value.Fits := by
    obtain ⟨view, row, found, position, here⟩ := rowAt_some live
    have one (key : GroupKey) (member : key ∈ partitionBy) (term : GroupTerm)
        (resolved : resolvePartitionKey schema (orderingKeyOfViews views) key = .ok term) :=
      resolvePartitionKey_mark (readable view (List.mem_of_getElem? found)) resolved
        (fun index field found => by
            rw [cellNamed, found]
            dsimp only
            rw [cellAt, here, Option.elim_some]) (exact place live key member)
    constructor
    · rw [marksAt, here, Option.elim_some, partitionAt, List.map_map]
      exact (map_eq_of_forall₂ (except_mapM_ok resolved) fun key member term resolved =>
        (one key member term resolved).1.symm).symm
    · intro value member
      obtain ⟨key, listed, rfl⟩ := List.mem_map.mp member
      obtain ⟨at_, index⟩ := List.getElem?_of_mem listed
      obtain ⟨term, -, resolved⟩ := forall₂_get (except_mapM_ok resolved) index
      exact (one key listed term resolved).2
  intro place live other live'
  obtain ⟨same, fits⟩ := marks place live
  obtain ⟨same', fits'⟩ := marks other live'
  rw [same, same']
  refine ⟨fun equal => ?_, fun equal => by rw [equal]⟩
  exact PartitionValue.marks_inj fits' fits equal

end Partitions

section Standard

variable [F64Math F]

/-- The cell that a window call gives a row in a run. -/
def WindowCall.Gives (registry : Registry F) (schema : Schema) (views : List (SegmentView F))
    (columnType : ColumnType)
    (call : WindowCall) (run : RowRun) (place : Nat × Nat) (cell : RowValue F) : Prop :=
  match call with
  | .agg function args _ orderBy frame => ∃ aggregate, registry.window function = .ok aggregate ∧
    AggregateCell schema views aggregate args orderBy (if orderBy.isNone then .partition else frame)
      columnType run place cell
  | .value lead column offset _ _ => ValueCell schema views lead column offset run place cell

/-- A window's runs are the partitions of the live rows, and every live row gets what its frame in
its partition gives. -/
structure WindowCall.Standard (registry : Registry F) (schema : Schema) (views : List (SegmentView F))
    (call : WindowCall) (field : Field) (columns : List (Column F)) : Prop where
  runs : ∃ runs, valueRuns schema views call.partitionBy = .ok runs ∧
    RunsByValue schema views call.partitionBy runs
  shape : columns.map Column.length = views.map (·.liveIndices.length)
  cells : ∀ place ∈ places views,
    call.Gives registry schema views field.columnType
      (partitionOf schema views call.partitionBy place) place (outputAt columns place)

/-- What a window call gives in the runs that the engine makes. -/
theorem evaluateWindowCall_gives {schema : Schema} {views : List (SegmentView F)}
    (readable : ∀ view ∈ views, view.Readable schema)
    {registry : Registry F} {call : WindowCall} (planned : call.Planned) {as : Option String}
    {field : Field} {columns : List (Column F)}
    (ran : evaluateWindowCall schema views registry call as = .ok (field, columns)) :
    ∃ terms runs, call.partitionBy.mapM
      (resolvePartitionKey schema (orderingKeyOfViews views)) = .ok terms ∧
      valueRuns schema views call.partitionBy = .ok runs ∧ RunsByMark terms views runs ∧
      columns.map Column.length = views.map (·.liveIndices.length) ∧ ∀ run ∈ runs, ∀ place ∈ run,
        call.Gives registry schema views field.columnType run place (outputAt columns place) := by
  cases call with
  | agg function args partitionBy orderBy frame =>
    have given := windowAggregate_gives readable ran
    have frame_ : (if orderBy.isNone then .partition else frame) = frame := by
      cases orderBy with
      | none => exact (planned rfl).symm
      | some _ => rfl
    unfold WindowCall.Gives
    simp only [frame_]
    exact given
  | value lead column offset partitionBy orderBy => exact windowValue_gives readable ran

/-- A window is the standard one exactly where the engine tells the partitions of the live rows
apart. -/
theorem window_standard_iff {schema : Schema} {views : List (SegmentView F)}
    (readable : ∀ view ∈ views, view.Readable schema)
    {registry : Registry F} {call : WindowCall} (planned : call.Planned) {as : Option String}
    {field : Field} {columns : List (Column F)}
    (ran : evaluateWindowCall schema views registry call as = .ok (field, columns))
    {terms : List GroupTerm}
    (resolved : call.partitionBy.mapM (resolvePartitionKey schema (orderingKeyOfViews views)) =
      .ok terms) :
    call.Standard registry schema views field columns ↔
    TellsPartitions terms schema views call.partitionBy := by
  obtain ⟨terms', runs, resolved', ranRuns, byMark, shape, gives⟩ :=
    evaluateWindowCall_gives readable planned ran
  obtain rfl := Except.ok.inj (resolved.symm.trans resolved')
  constructor
  · rintro ⟨⟨runs', ranRuns', byValue⟩, -, -⟩
    obtain rfl := Except.ok.inj (ranRuns.symm.trans ranRuns')
    exact byMark.byValue_iff.mp byValue
  · intro tells
    have byValue := byMark.byValue_iff.mpr tells
    refine ⟨⟨runs, ranRuns, byValue⟩, shape, fun place live => ?_⟩
    obtain ⟨run, member, inside⟩ := byValue.1 place live
    rw [← byValue.2 run member place inside]
    exact gives run member place inside

end Standard

/-! ### Three columns -/

def venueSchema : Schema := ⟨[.new "ts" .i64 false, .new "price" .f64 false, .new "venue" .i64 true]⟩

def venueView (clocks : List Int64) (venues : List (Option Int64)) (live : Option Bitmap) :
    SegmentView UInt64 where
  segment := {
    batch := { schema := venueSchema, columns := [.i64 clocks none, .f64 (clocks.map fun _ => 0) none,
      .i64 (venues.map (·.getD 0))
      (if venues.all Option.isSome then none else some (venues.map Option.isSome))] }
    orderingKey := 0
    ordered := true
    baseRowId := 0
    zoneMaps := []
    sequence := .rowIds
    superseded := none }
  live

theorem venueView_readable {clocks : List Int64} {venues : List (Option Int64)}
    (sized : venues.length = clocks.length)
    (sorted : clocks.Pairwise (· ≤ ·)) (live : Option Bitmap) :
    (venueView clocks venues live).Readable venueSchema where
  binds := by
    refine .cons ⟨rfl, rfl, fun _ absent => (by cases absent), fun _ _ _ absent => (by cases absent)⟩
      (.cons ⟨rfl, List.length_map _, fun _ absent => (by cases absent), fun _ _ _ absent => (by
          cases absent)⟩
        (.cons ⟨rfl, (List.length_map _).trans sized, fun bits given => ?_, fun _ _ _ absent => (by
          cases absent)⟩ .nil))
    simp only [Column.validity] at given
    split at given
    · cases given
    · obtain rfl := Option.some.inj given
      exact ⟨(List.length_map _).trans sized, rfl⟩
  sorted := ⟨rfl, fun _ => sorted⟩

/-- A registered aggregate that counts the rows of a frame it is handed, and makes no trailing
frames. -/
def depth : WindowAggregate UInt64 where
  arity := 1
  evaluateFrames _ _ := .error "depth takes a RANGE frame"
  evaluateBoundedFrames := recomputeBoundedFrames AggFunction.count.evaluateWindow
  outputType := .i64

def depthRegistry : Registry UInt64 :=
  ⟨fun name => if name = "depth" then some depth else none, fun _ => none⟩

/-- The number of prices of the last five seconds at the same venue. -/
def recentPrices : WindowCall := .agg "depth" ["price"] [.column "venue"] (some "ts") (.range 5)

/-- Two segments, in which equal clocks meet and one row is dead. -/
def venueViews : List (SegmentView UInt64) :=
  [venueView [1, 4, 9] [some 7, some 8, some 7] (some [true, false, true]),
    venueView [9, 12] [some 7, some 8] none]

theorem recentPrices_standard :
    recentPrices.Standard depthRegistry venueSchema venueViews (.new "depth" .i64 true)
      [.i64 [1, 2] none, .i64 [2, 1] none] := by
  refine (@window_standard_iff UInt64 _ venueSchema venueViews (fun view member => ?_)
    depthRegistry recentPrices
    (fun absent => by cases absent) none (.new "depth" .i64 true) [.i64 [1, 2] none, .i64 [2, 1] none]
    (by decide +kernel) [.bucket 2 1 none] (by decide +kernel)).mpr ?_
  · rcases List.mem_cons.mp member with rfl | member
    · exact venueView_readable rfl (by decide) _
    · rw [List.mem_singleton.mp member]
      exact venueView_readable rfl (by decide) _
  · unfold TellsPartitions
    decide +kernel

/-- A row whose venue is null sees the row before it at venue zero. -/
theorem null_venue_merged :
    evaluateWindowCall venueSchema
      [venueView [1, 2] [some 0, none] none] ⟨fun _ => none, fun _ => none⟩
    (.value false "ts" 1 [.column "venue"] "ts")
        none = .ok (.new "lag" .i64 true, [.i64 [0, 1] (some [false, true])]) ∧
      ¬ (WindowCall.value false "ts" 1 [.column "venue"] "ts").Standard
        ⟨fun _ => none, fun _ => none⟩ venueSchema [venueView [1, 2] [some 0, none] none]
        (.new "lag" .i64 true) [.i64 [0, 1] (some [false, true])] := by
  refine ⟨by decide +kernel, fun standard => ?_⟩
  obtain ⟨i, here, cell⟩ := standard.cells (0, 1) (by decide +kernel)
  have alone : partitionOf venueSchema [venueView [1, 2] [some 0, none] none] [.column "venue"]
    (0, 1) = [(0, 1)] := by decide +kernel
  rw [WindowCall.partitionBy, alone] at here cell
  obtain rfl : i = 0 := by
    have inside := (List.getElem?_eq_some_iff.mp here).1
    simpa using inside
  revert cell
  decide +kernel

end TallyDB
