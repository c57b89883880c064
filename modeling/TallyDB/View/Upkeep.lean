import TallyDB.View.Kept

/-!
# Bringing a view up to date

A refresh keeps to what the view keeps to wherever it fails. One that returns has moved the
stamp to the next coordinate of the source, and the table is then the fold of what lives.
-/

namespace TallyDB

open Crash Chronicle

variable {F : Type} [F64Math F] {m : Making F} {s : Maintained F} {w : ViewWorld F} {α : Type}

/-! ### The span of the source -/

section Span

variable {schema : Schema} {orderingKey : Nat} {rows : List (Row F)}

/-- The smallest and the largest ordering key are there as soon as a row is. -/
theorem absorb_span (axis : schema.Axis orderingKey)
    (valid : ∀ row ∈ rows, schema.validate row = .ok ()) (clock : Row F → Int64) (low high : Int64)
    (seen seen' : Bool) : ∃ low' high', rows.foldlM
      (fun accumulators row =>
      absorb schema row (clock row) [some orderingKey, some orderingKey] accumulators)
      [.minMaxI64 low seen false, .minMaxI64 high seen' true] =
        .ok [.minMaxI64 low' (seen || !rows.isEmpty) false,
          .minMaxI64 high' (seen' || !rows.isEmpty) true] := by
  induction rows generalizing low high seen seen' with
  | nil => exact ⟨low, high, by simp [pure, Except.pure]⟩
  | cons row rows ih =>
    have here := axis.cell (valid row List.mem_cons_self)
    obtain ⟨field, declared, typed, -⟩ := axis
    have cell : argumentCell schema row (some orderingKey) =
        .ok (some (.i64 (orderingValue orderingKey row))) := by
      rw [argumentCell, declared, Option.map_some, typed, if_neg (by simp),
        List.getD_eq_getElem?_getD, here]
      rfl
    rw [List.foldlM_cons]
    simp only [absorb, cell, bind, Except.bind, Accumulator.update]
    obtain ⟨low', high', folded⟩ :=
      ih (fun other member => valid other (List.mem_cons_of_mem _ member)) _ _ true true
    refine ⟨low', high', folded.trans ?_⟩
    simp

theorem span_planned {source : TableInfo} (keyed : source.Keyed) :
    groupPlan (F := F) source.schema [] (some source.orderingKey) []
      (spanItems source.orderingKeyName) =
      .ok ⟨[], [some source.orderingKey, some source.orderingKey],
        [.minMaxI64 0 false false, .minMaxI64 0 false true], some source.orderingKey, false⟩ := by
  obtain ⟨field, declared, typed, -⟩ := keyed.axis
  have found := Schema.resolve_of_index keyed.named declared
  unfold groupPlan spanItems
  simp only [List.mapM_nil, List.filterMap_cons, List.filterMap_nil, List.mapM_cons,
    resolveArgument, found, Except.map, bind, Except.bind, pure,
    Except.pure, List.zip_cons_cons, List.zip_nil_right, Option.map_some, typed, Accumulator.new,
    List.map_cons, List.map_nil, List.any_nil,
    Bool.false_and]

/-- Every answer to the span shows two integers, where there is a row. -/
theorem span_answers {source : TableInfo} (keyed : source.Keyed)
    (valid : ∀ row ∈ rows, source.schema.validate row = .ok ()) (some_ : rows ≠ [])
    {out : List (Row F)}
    (answered : answer source.schema (some source.orderingKey) [] (spanItems source.orderingKeyName)
      rows = .ok out) :
    out ≠ [] ∧ ∀ row ∈ out, ∃ low high, row = [.i64 low, .i64 high] := by
  obtain ⟨plan, groups, planned, grouped, rfl⟩ := answer_iff.mp answered
  obtain rfl := Except.ok.inj (planned.symm.trans (span_planned keyed))
  constructor
  · intro none_
    have listed := grouped.listed (show ([] : List Mark) ∈ [[]] from List.mem_singleton_self _)
    rw [List.map_eq_nil_iff.mp none_] at listed
    cases listed
  · intro row member
    obtain ⟨group, inside, rfl⟩ := List.mem_map.mp member
    obtain ⟨listed, folded⟩ := grouped.mem inside
    obtain ⟨marks, accumulators⟩ := group
    obtain rfl : marks = [] := by
      simp only [GroupPlan.known, List.isEmpty_nil, if_true, List.mem_append, List.mem_singleton,
        List.mem_map, GroupPlan.keyed, List.map_nil] at listed
      rcases listed with same | ⟨_, ⟨_, -, rfl⟩, same⟩
      · exact same
      · exact same.symm
    unfold GroupBy.foldOf at folded
    rw [List.filter_eq_self.mpr (by simp [GroupPlan.keyed]), List.foldlM_map] at folded
    obtain ⟨low, high, ran⟩ :=
      absorb_span keyed.axis valid (orderingValue source.orderingKey) 0 0 false false
    obtain rfl := Except.ok.inj (folded.symm.trans ran)
    have busy : rows.isEmpty = false := by simpa using some_
    exact ⟨low, high, by simp [answerCells, spanItems, Accumulator.cell, AggCell.cell, busy]⟩

theorem spanOf_none {s : Store F} {disk : Disk F} {segments past : List (Segment F)}
    [LawfulRounding F] {registry : Registry F} {source : TableInfo}
    {output : QueryOutput F} (sound : s.Sound disk segments past) (is : s.Is source)
    (keyed : source.Keyed)
    (ran : Table.executePlan registry s disk (spanPlan source) = .ok output)
    (none_ : spanOf output = none) : s.liveRows disk = [] := by
  have groups : (spanPlan source : Plan F).Groups [] (spanItems source.orderingKeyName) :=
    ⟨rfl, by simp [spanItems], rfl, rfl, rfl, rfl, fun test member => by cases member⟩
  obtain ⟨views, finished, stored, kept⟩ := sound.computes groups.kernels ran
  have rows : views.flatMap SegmentView.liveRows = s.liveRows disk := kept
  have answered := finish_answers (Schema.checkOrderingKey_axis sound.keyed) stored groups
    (fun _ _ _ member => by cases member) finished
  have projected := finish_projects groups finished
  rw [rows, ← is.1, ← is.2] at answered
  by_contra some_
  obtain ⟨filled, shapes⟩ :=
    span_answers keyed (fun row member => is.1 ▸ sound.live_valid row member) some_ answered
  -- One batch holds every row of the answer.
  obtain ⟨_, _, projected⟩ := except_bind_ok projected
  obtain ⟨⟨closed, unified⟩, _, projected⟩ := except_bind_ok projected
  have same := Except.ok.inj projected
  have batches := congrArg QueryOutput.batches same
  simp only at batches
  split at batches
  · rw [QueryOutput.rows, ← batches] at filled
    exact filled rfl
  · unfold QueryOutput.rows at filled shapes
    rw [spanOf, ← batches] at none_
    rw [← batches] at filled shapes
    simp only [List.flatMap_cons, List.flatMap_nil, List.append_nil] at filled shapes
    generalize hb : (RecordBatch.mk _ _ : RecordBatch F) = batch at none_ filled shapes
    have count : batch.numRows ≠ 0 := fun zero => filled (by rw [RecordBatch.rows, zero]; rfl)
    obtain ⟨low, high, first⟩ :=
      shapes (batch.row 0) (List.mem_map_of_mem (List.mem_range.mpr (Nat.pos_of_ne_zero count)))
    simp [List.head?, count, first, spanOfRow] at none_

end Span

namespace Maintained

/-! ### The stamp -/

def stampedAt (s : Maintained F) (now : Nat) : Maintained F :=
  { s with view := { s.view with stamp := now } }

/-- A step that the source does not see, and that leaves the rows of the table. -/
structure Rests (s : Maintained F) (w : ViewWorld F) (s' : Maintained F) (w' : ViewWorld F) : Prop where
  source : s'.source = s.source
  disk : w'.source.disk = w.source.disk
  width : s'.view.width = s.view.width
  stamp : s'.view.stamp = s.view.stamp
  rows : (s'.view.table.liveRows w'.table.disk).Perm (s.view.table.liveRows w.table.disk)

theorem Rests.refl (s : Maintained F) (w : ViewWorld F) : s.Rests w s w := ⟨rfl, rfl, rfl, rfl, .refl _⟩

theorem Complete.rests {s' : Maintained F} {w' : ViewWorld F} (complete : s.Complete m w)
    (rests : s.Rests w s' w') : s'.Complete m w' := by
  intro width g under
  rw [rests.source, rests.disk]
  unfold Under at under
  rw [rests.width] at under
  exact (complete g under).perm (.refl _) rests.rows

omit [F64Math F] in
theorem ends_writeDefinition {post : Except EngineError Unit → Maintained F → ViewWorld F → Prop}
    (ends : ∀ result w', w.Quiet w' → post result s w') : ViewM.Ends writeDefinition post s w := by
  unfold writeDefinition
  simp only [Fallible.wp_bind, Fallible.wp_read]
  rw [Fallible.wp_perform]
  refine ⟨trivial, fun outcome _ => ?_⟩
  cases outcome with
  | ok => exact ends _ _ ⟨rfl, rfl⟩
  | err left => exact ends _ _ ⟨rfl, rfl⟩

/-- The stamp moves in memory first, and the record follows the flush. -/
theorem Kept.ends_advanceStamp {now : Nat}
    {post : Except EngineError Unit → Maintained F → ViewWorld F → Prop}
    (kept : (s.stampedAt now).Kept m w)
    (ends : ∀ result s' w', s'.Kept m w' → (s.stampedAt now).Rests w s' w' → post result s' w') :
    ViewM.Ends (advanceStamp now) post s w := by
  unfold advanceStamp
  simp only [Fallible.wp_bind, Fallible.wp_update, Fallible.wp_read]
  refine Fallible.wp_when.mpr ⟨fun _ => ?_, fun _ => ends _ _ _ kept (.refl _ _)⟩
  refine Fallible.wp_bind.mpr (ends_inTable (ends_flush kept.tabled fun result t v stepped same => ?_))
  have kept' := kept.rearranged stepped same
  have rests : (s.stampedAt now).Rests w
      { s.stampedAt now with view := { (s.stampedAt now).view with table := t } }
      { w with table := v } :=
    ⟨rfl, rfl, rfl, rfl, same⟩
  cases result with
  | error e => exact ends _ _ _ kept' rests
  | ok _ =>
    refine ends_writeDefinition fun result w' quiet => ends _ _ _ (kept'.quiet quiet)
      ⟨rfl, quiet.1, rfl, rfl, ?_⟩
    rw [quiet.2]
    exact same

/-- Where the table is the fold of what lives, the stamp may move to any coordinate up to the next.
-/
theorem Kept.restamped {now : Nat} (kept : s.Kept m w) (complete : s.Complete m w)
    (spent : now ≤ s.source.nextSequence) : (s.stampedAt now).Kept m w where
  source := kept.source
  steady := kept.steady
  table := kept.table
  tabled := kept.tabled
  sql := kept.sql
  of_ := kept.of_
  narrow := kept.narrow
  unsized := kept.unsized
  stamped g under := by
    obtain ⟨segments, past, steady⟩ := kept.steady
    have holds := complete g under
    rw [steady.sound.liveRows_living] at holds
    exact .refreshed holds spent
  stored := kept.stored

/-- Where the table is the fold of what lives, the stamp moves to the next coordinate. -/
theorem Kept.ends_stampNow {post : Except EngineError Nat → Maintained F → ViewWorld F → Prop}
    (kept : s.Kept m w) (complete : s.Complete m w) (n : Nat)
    (ends : ∀ result s' w', s'.Kept m w' → s'.source = s.source → w'.source.disk = w.source.disk →
      (∀ n, result = .ok n → s'.view.stamp = s'.source.nextSequence ∧ s'.Complete m w') →
      post result s' w') :
    ViewM.Ends (do
      advanceStamp s.source.nextSequence
      return n) post s w := by
  have restamped := kept.restamped complete (Nat.le_refl _)
  refine Fallible.wp_bind.mpr (restamped.ends_advanceStamp fun result s' w' kept' rests => ?_)
  cases result with
  | error e => exact ends _ s' w' kept' rests.source rests.disk fun n ok => by cases ok
  | ok _ =>
    refine ends _ s' w' kept' rests.source rests.disk fun _ _ => ⟨?_, ?_⟩
    · rw [rests.stamp, rests.source]
      rfl
    · exact Complete.rests (show (s.stampedAt s.source.nextSequence).Complete m w from complete) rests

/-! ### One definition at a time -/

theorem folds_congr {width width' : Nat} {g : m.Folding width} {g' : m.Folding width'}
    (same : g'.definition = g.definition) :
    g'.folds = g.folds ∧ g'.bucket = g.bucket := by
  obtain ⟨definition, read, keys, items, bucket, derived, fits, named⟩ := g
  obtain ⟨definition', read', keys', items', bucket', derived', fits', named'⟩ := g'
  obtain rfl : definition' = definition := same
  obtain ⟨rfl, rfl, -⟩ :=
    Projection.aggregate.inj (fits'.groups.projection.symm.trans fits.groups.projection)
  obtain ⟨as, shown⟩ := fits.by_.shown
  obtain ⟨as', shown'⟩ := fits'.by_.shown
  obtain ⟨rfl, -⟩ := AggItem.key.inj (Option.some.inj (shown'.symm.trans shown))
  exact ⟨rfl, rfl⟩

/-- A definition that stores its own answer is the same under every width; the others, once a width
is chosen. -/
theorem sole_definition {width width' : Nat} (g : m.Folding width) (under : s.Under width)
    (sized : g.read = .direct ∨ s.view.width ≠ 0)
    (g' : m.Folding width') (under' : s.Under width') : g'.definition = g.definition ∧
    g'.read = g.read := by
  obtain ⟨plan, make, -, -, made, again⟩ := Definition.of_made g.derived
  have here := Prod.mk.inj (Except.ok.inj ((again width).symm.trans g.derived))
  have there := Prod.mk.inj (Except.ok.inj ((again width').symm.trans g'.derived))
  refine ⟨?_, there.2.symm⟩
  rcases sized with direct | chosen
  · rw [direct] at made
    cases made with
    | direct _ _ _ => exact there.1.symm.trans here.1
    | hidden kind _ _ => rcases kind with other | other <;> cases other
  · obtain rfl : width' = width := (under'.resolve_left chosen).symm.trans (under.resolve_left chosen)
    exact there.1.symm.trans here.1

/-! ### Reads and the replacement -/

theorem Kept.ends_sourcePlan {plan : Plan F} {registry : Registry F}
    {post : Except EngineError (QueryOutput F) → Maintained F → ViewWorld F → Prop}
    (kept : s.Kept m w) (refused : ∀ e w', w.Quiet w' → post (.error e) s w')
    (done : ∀ output w', w.Quiet w' → Table.executePlan registry s.source w.source.disk plan =
      .ok output → post (.ok output) s w') :
    ViewM.Ends (inSource (Table.runPlan registry plan)) post s w := by
  obtain ⟨segments, past, steady⟩ := kept.steady
  refine ends_inSource
    (Table.wp_runPlan steady.sound (fun _ _ => trivial) (fun e v quiet => ?_)
    fun output v quiet ran => ?_)
  · exact refused e _ ⟨quiet.2, rfl⟩
  · exact done output _ ⟨quiet.2, rfl⟩ ran

theorem Kept.ends_tablePlan {plan : Plan F} {registry : Registry F}
    {post : Except EngineError (QueryOutput F) → Maintained F → ViewWorld F → Prop}
    (kept : s.Kept m w) (refused : ∀ e w', w.Quiet w' → post (.error e) s w')
    (done : ∀ output w', w.Quiet w' → Table.executePlan registry s.view.table w.table.disk plan =
      .ok output → post (.ok output) s w') :
    ViewM.Ends (inTable (Table.runPlan registry plan)) post s w := by
  obtain ⟨segments, past, steady⟩ := kept.tabled
  refine ends_inTable
    (Table.wp_runPlan steady.sound (fun _ _ => trivial) (fun e v quiet => ?_)
    fun output v quiet ran => ?_)
  · exact refused e _ ⟨rfl, quiet.2⟩
  · exact done output _ ⟨rfl, quiet.2⟩ ran

theorem Kept.ends_walk {since : Nat}
    {post : Except EngineError (List Int64) → Maintained F → ViewWorld F → Prop} (kept : s.Kept m w)
    (refused : ∀ e w', w.Quiet w' → post (.error e) s w')
    (done : ∀ touched w' segments past, w.Quiet w' → s.source.Steady w.source.disk segments past →
      s.source.Reports segments past since touched →
      post (.ok touched) s w') : ViewM.Ends (inSource (Table.touchedOrderingKeys since)) post s w := by
  obtain ⟨segments, past, steady⟩ := kept.steady
  refine ends_inSource
    (Table.wp_touchedOrderingKeys steady.sound (fun _ _ => trivial) (fun e v quiet => ?_)
    fun touched v quiet reports => ?_)
  · exact refused e _ ⟨quiet.2, rfl⟩
  · exact done touched _ segments past ⟨quiet.2, rfl⟩ steady reports

/-- What nothing touched since the stamp is still the fold. -/
theorem Kept.complete_untouched (kept : s.Kept m w) {segments past : List (Segment F)}
    (steady : s.source.Steady w.source.disk segments past)
    (reports : s.source.Reports segments past s.view.stamp []) : s.Complete m w := by
  intro width g under
  have stamped := kept.stamped g under
  rw [steady.sound.bookOn] at stamped
  rw [steady.sound.liveRows_living, steady.sound.bookOn]
  refine stamped.untouched fun fact member => ?_
  rw [← Bool.not_eq_true]
  intro touch
  cases (reports _).mpr ⟨fact, member, touch, rfl⟩

variable [LawfulRounding F]

/-- The replacement of the dirty buckets, whatever fails. One that returns completes the table. -/
theorem Kept.ends_replace {width : Nat} {runs : List (Int64 × Int64)} {touched : List Int64}
    {victims : Predicate F} {replacement : QueryOutput F}
    {segments past : List (Segment F)}
    {post : Except EngineError Unit → Maintained F → ViewWorld F → Prop} (kept : s.Kept m w)
    (g : m.Folding width)
    (under : s.Under width) (sized : g.read = .direct ∨ s.view.width ≠ 0)
    (steady : s.source.Steady w.source.disk segments past)
    (reports : s.source.Reports segments past s.view.stamp touched)
    (indices : ∀ run ∈ runs, IsIndex g.definition.divide run.1 ∧ IsIndex g.definition.divide run.2)
    (covers : ∀ key, inRanges runs (key / g.definition.divide) =
      decide (g.bucket.stored key ∈ touched.map g.bucket.stored))
    (chained : g.definition.viewRanges runs = some victims)
    (refolds : g.folds.fold ((living (s.source.book segments past).facts).filter fun row =>
      g.folds.dirtySince s.view.stamp (s.source.book segments past).facts (g.folds.bucket row)) =
      .ok replacement.rows)
    (ends : ∀ result s' w', s'.Kept m w' → s'.source = s.source → w'.source = w.source →
      s'.view.stamp = s.view.stamp →
      ((∃ u, result = .ok u) → s'.Complete m w') → post result s' w') :
    ViewM.Ends (inTable (Table.replaceMatching unregistered (some victims) replacement)) post s w := by
  obtain ⟨tableSegments, tablePast, tabled⟩ := kept.tabled
  have kernels : ∀ test ∈ some victims, test.usesRegistered = false :=
    fun test member => Option.some.inj member ▸ usesRegistered_ranges chained
  refine ends_inTable
    (Table.wp_replaceMatching tabled kernels (fun _ _ _ _ _ _ _ => trivial)
    fun result t v segments' past' tabled' kin swaps => ?_)
  have dirties := g.fits.runs_dirty kept.source reports covers
  obtain ⟨picks, -⟩ :=
    g.fits.selects tabled.sound kept.table.2 (by rw [← kept.table.1]; exact g.named)
    (kept.stored g under) indices dirties chained
  rw [picks] at swaps
  have stamped := kept.stamped g under
  rw [steady.sound.bookOn] at stamped
  generalize known : s.source.book segments past = book at *
  have fresh (row : Row F) (member : row ∈ replacement.rows) : ∃ source,
    row[m.table.orderingKey]? = some (.i64 (g.bucket.stored source)) ∧
      g.folds.dirtySince s.view.stamp book.facts (orderingValue m.table.orderingKey row) = true := by
    obtain ⟨source, inside, cell⟩ := g.fits.by_.stored refolds row member
    refine ⟨_, cell, ?_⟩
    rw [orderingValue, cell]
    exact (List.mem_filter.mp (mem_of_keep inside)).2
  -- The clean rows stay, whatever was replaced.
  have clean : g.folds.Stamped s.view.stamp book (t.liveRows v.disk) := by
    refine stamped.disturbed (swaps.spares (fun row member => ?_) fun row member => ?_)
    · have dirty : g.folds.dirtySince s.view.stamp book.facts (g.folds.shown row) = true :=
        (List.mem_filter.mp member).2
      rw [dirty]
      rfl
    · obtain ⟨_, -, dirty⟩ := fresh row member
      rw [show g.folds.shown row = orderingValue m.table.orderingKey row from rfl, dirty]
      rfl
  have stored (row : Row F) (member : row ∈ t.liveRows v.disk) :
      g.bucket.StoredIn m.table.orderingKey row := by
    obtain ⟨stays, gone, born, left, came, -, among, -⟩ := swaps.split
    rcases List.mem_append.mp (came.mem_iff.mp member) with old | new
    · exact kept.stored g under row (left.mem_iff.mpr (List.mem_append_left _ old))
    · obtain ⟨source, cell, -⟩ := fresh row (among row new)
      exact ⟨source, cell⟩
  refine ends result _ _
    (kept.changed ⟨_, _, tabled'⟩ kin (fun g' zero other => ?_) fun g' under' => ?_) rfl rfl rfl
    fun done width' g' under' => ?_
  · rcases sized with direct | chosen
    · exact absurd ((sole_definition g under (.inl direct) g' (.inl zero)).2.trans direct) other
    · exact absurd zero chosen
  · obtain ⟨fold, bucket⟩ := folds_congr (sole_definition g under sized g' under').1
    rw [fold, bucket, steady.sound.bookOn, known]
    exact ⟨clean, stored⟩
  · obtain ⟨fold, bucket⟩ := folds_congr (sole_definition g under sized g' under').1
    change g'.folds.Holds (s.source.liveRows w.source.disk) (t.liveRows v.disk)
    rw [fold, steady.sound.liveRows_living, steady.sound.bookOn, known]
    exact (stamped.patched refolds).perm (.refl _) (swaps.complete done rfl)

omit [LawfulRounding F] in
/-- The stamp stands at the next coordinate of the source. If it moved there, the table is the fold
of what lives, and where it did not, the table is if it was. -/
structure Updated (m : Making F) (s : Maintained F) (w : ViewWorld F) (s' : Maintained F)
    (w' : ViewWorld F) : Prop where
  stamp : s'.view.stamp = s'.source.nextSequence
  complete : s.view.stamp < s'.view.stamp ∨ s.Complete m w → s'.Complete m w'

omit [F64Math F] [LawfulRounding F] in
theorem ends_expected {what : String} {value : Option α}
    {post : Except EngineError α → Maintained F → ViewWorld F → Prop}
    (missing : ∀ e, post (.error e) s w) (there : ∀ found, value = some found → post (.ok found) s w) :
    ViewM.Ends (Fallible.ofExcept (expected what value)) post s w := by
  cases value with
  | none => exact missing _
  | some found => exact there found rfl

/-- What `repair` leaves. -/
theorem Kept.ends_repair {width : Nat}
    {post : Except EngineError Nat → Maintained F → ViewWorld F → Prop} (kept : s.Kept m w)
    (serves : m.Serves)
    (g : m.Folding width) (under : s.Under width) (sized : g.read = .direct ∨ s.view.width ≠ 0)
    (ends : ∀ result s' w', s'.Kept m w' → s'.source = s.source → w'.source.disk = w.source.disk →
      (∀ n, result = .ok n → s.Updated m w s' w') → post result s' w') :
    ViewM.Ends (repair m.registry m.source.name g.definition s.source.nextSequence) post s w := by
  have spent : s.view.stamp ≤ s.source.nextSequence := (kept.stamped g under).spent
  have fails {s' : Maintained F} {w' : ViewWorld F} (e : EngineError) (kept' : s'.Kept m w')
    (same : s'.source = s.source)
      (disk : w'.source.disk = w.source.disk) : post (.error e) s' w' :=
        ends _ s' w' kept' same disk fun n ok => by cases ok
  -- The stamp moves once the table is complete.
  have moves {s₁ : Maintained F} {w₁ : ViewWorld F} (kept₁ : s₁.Kept m w₁)
    (same : s₁.source = s.source) (disk : w₁.source.disk = w.source.disk)
      (complete : s₁.Complete m w₁) (n : Nat) : ViewM.Ends (do
        advanceStamp s.source.nextSequence
        return n) post s₁ w₁ := by
    rw [← same]
    refine kept₁.ends_stampNow complete n fun result s' w' kept' source world moved => ?_
    exact ends _ s' w' kept' (source.trans same) (world.trans disk) fun n ok =>
      ⟨(moved n ok).1, fun _ => (moved n ok).2⟩
  unfold repair
  simp only [Fallible.wp_bind, Fallible.wp_read]
  rw [if_neg (Nat.not_lt.mpr spent)]
  split
  · next current => exact ends _ s w kept rfl rfl fun _ _ =>
      ⟨current.symm, fun done => done.resolve_left (Nat.lt_irrefl _)⟩
  refine Fallible.wp_bind.mpr
    (kept.ends_walk (fun e w' quiet => fails e (kept.quiet quiet) rfl quiet.1)
    fun touched w₁ segments past quiet steady reports => ?_)
  have kept₁ := kept.quiet quiet
  have steady₁ : s.source.Steady w₁.source.disk segments past := quiet.1.symm ▸ steady
  simp only
  rcases g.fits.spells.touchedRuns_cases touched with ⟨rfl, none_⟩ | ⟨-, runs, some_, -,
    indices, covers⟩
  · rw [none_]
    exact moves kept₁ rfl quiet.1 (kept₁.complete_untouched steady₁ reports) 0
  rw [some_]
  simp only [Fallible.wp_bind]
  refine ends_expected (fun e => fails e kept₁ rfl quiet.1) fun restricted chosen => ?_
  rw [kept.info] at chosen
  refine kept₁.ends_sourcePlan
    (fun e w' later => fails e (kept₁.quiet later) rfl (later.1.trans quiet.1))
    fun output w₂ later ran => ?_
  have refolds := g.fits.refolds kept.source serves.keyed.named steady₁.sound reports indices
    covers chosen ran
  refine ends_expected (fun e => fails e (kept₁.quiet later) rfl (later.1.trans quiet.1))
    fun victims chained => ?_
  have steady₂ : s.source.Steady w₂.source.disk segments past := later.1.symm ▸ steady₁
  refine (kept₁.quiet later).ends_replace g under sized steady₂ reports indices covers chained
    refolds fun result s' w' kept' same world stamp complete => ?_
  have disk : w'.source.disk = w.source.disk :=
    (congrArg World.disk world).trans (later.1.trans quiet.1)
  cases result with
  | error e => exact fails e kept' same disk
  | ok u => exact Fallible.wp_bind.mp (moves kept' same disk (complete ⟨u, rfl⟩) _)

end Maintained

end TallyDB
