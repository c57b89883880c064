import TallyDB.View.Upkeep

/-!
# The life of a view

A view is made over a table that has gone through any run. From then on the table goes on and
the view is refreshed and compacted, in any order, and any call of either may fail.
-/

namespace TallyDB

open Crash Chronicle

variable {F : Type} [F64Math F] {m : Making F}

namespace Maintained

variable {s : Maintained F} {w : ViewWorld F}

/-! ### A refresh -/

def sizedTo (s : Maintained F) (width : Nat) : Maintained F := { s with view := { s.view with width } }

theorem bucketWidth_bounds (low high : Int64) : 1 ≤ bucketWidth low high ∧
    bucketWidth low high < 2 ^ 63 := by
  have up := high.toInt_lt
  have down := low.le_toInt
  unfold bucketWidth targetBuckets
  simp only
  omega

theorem sole_read {width width' : Nat} (g : m.Folding width) (g' : m.Folding width') :
    g'.read = g.read := by
  obtain ⟨plan, make, -, -, -, again⟩ := Definition.of_made g.derived
  exact (Prod.mk.inj (Except.ok.inj ((again width').symm.trans g'.derived))).2.symm

theorem Kept.sized {width : Nat} (kept : s.Kept m w) (none_ : s.view.width = 0)
    (positive : 1 ≤ width) (narrow : width < 2 ^ 63) :
    (s.sizedTo width).Kept m w where
  source := kept.source
  steady := kept.steady
  table := kept.table
  tabled := kept.tabled
  sql := kept.sql
  of_ := kept.of_
  narrow := narrow
  unsized _ zero := absurd (show width = 0 from zero) (Nat.one_le_iff_ne_zero.mp positive)
  stamped g _ := kept.stamped g (.inl none_)
  stored g _ := kept.stored g (.inl none_)

/-- A view that no width was chosen for is the fold of a source without rows. -/
theorem Kept.complete_bare {width : Nat} (kept : s.Kept m w) (g : m.Folding width)
    (other : g.read ≠ .direct) (none_ : s.view.width = 0)
    (bare : s.source.liveRows w.source.disk = []) : s.Complete m w := by
  intro width' g' _
  rw [bare, kept.unsized g' none_ (by rwa [sole_read g g'])]
  exact ⟨[], [], .refl _, g'.fits.fold_nil, .refl _⟩

theorem Complete.goesOn (complete : s.Complete m w) {t : Store F} {v : World F}
    (same : (t.liveRows v.disk).Perm (s.source.liveRows w.source.disk)) :
    Complete m { s with source := t } { w with source := v } :=
  fun g under => (complete g under).perm same (.refl _)

theorem Kept.ends_sourceSpan [LawfulRounding F]
    {post : Except EngineError (Option (Int64 × Int64)) → Maintained F → ViewWorld F → Prop}
    (kept : s.Kept m w)
    (serves : m.Serves) (refused : ∀ e w', w.Quiet w' → post (.error e) s w')
    (done : ∀ span w', w.Quiet w' → (span = none → s.source.liveRows w.source.disk = []) →
      post (.ok span) s w') :
    ViewM.Ends (sourceSpan m.registry m.source.name) post s w := by
  unfold sourceSpan
  simp only [Fallible.wp_bind, Fallible.wp_read, kept.info]
  obtain ⟨segments, past, steady⟩ := kept.steady
  refine kept.ends_sourcePlan refused fun output w' quiet ran => ?_
  exact done _ w' quiet (spanOf_none steady.sound kept.source serves.keyed ran)

/-- Up to date since an earlier state is up to date since a state that differs from it in nothing
that counts. -/
theorem Updated.since {s₁ s' : Maintained F} {w₁ w' : ViewWorld F} (updated : s₁.Updated m w₁ s' w')
    (stamp : s₁.view.stamp = s.view.stamp)
    (carried : s.Complete m w → s₁.Complete m w₁) : s.Updated m w s' w' where
  stamp := updated.stamp
  complete done := updated.complete (done.imp (fun moved => stamp ▸ moved) carried)

/-- The first refresh that sees a row chooses the width, keeps it, and folds under it. -/
theorem Kept.ends_sizing [LawfulRounding F]
    {post : Except EngineError Nat → Maintained F → ViewWorld F → Prop} (kept : s.Kept m w)
    (serves : m.Serves)
    (none_ : s.view.width = 0) (low high : Int64)
    (ends : ∀ result s' w', s'.Kept m w' → s'.source = s.source → w'.source.disk = w.source.disk →
      (∀ n, result = .ok n → s.Updated m w s' w') → post result s' w') :
    ViewM.Ends (do
      Fallible.update fun s => { s with view := { s.view with width := bucketWidth low high } }
      let sized ← Fallible.ofExcept
        (Definition.of m.registry m.lower m.sql m.source none (bucketWidth low high))
      Fallible.when s.view.persistent writeDefinition
      repair m.registry m.source.name sized.1 s.source.nextSequence) post s w := by
  obtain ⟨positive, narrow⟩ := bucketWidth_bounds low high
  have sized := kept.sized none_ positive narrow
  simp only [Fallible.wp_bind, Fallible.wp_update, Fallible.wp_ofExcept]
  cases derived : Definition.of m.registry m.lower m.sql m.source none (bucketWidth low high) with
  | error e => exact ends _ _ _ sized rfl rfl fun n ok => by cases ok
  | ok found =>
    obtain ⟨definition, read⟩ := found
    obtain ⟨g, rfl, rfl⟩ := serves.folding narrow derived
    have folds {w₁ : ViewWorld F} (quiet : w.Quiet w₁) :
        ViewM.Ends (repair m.registry m.source.name g.definition s.source.nextSequence) post
          (s.sizedTo (bucketWidth low high)) w₁ := by
      refine (sized.quiet quiet).ends_repair serves g (.inr rfl)
        (.inr (Nat.one_le_iff_ne_zero.mp positive))
        fun result s' w' kept' source disk updated => ?_
      refine ends _ s' w' kept' source (disk.trans quiet.1) fun n ok =>
        (updated n ok).since rfl fun complete width h _ => ?_
      change h.folds.Holds (s.source.liveRows w₁.source.disk) (s.view.table.liveRows w₁.table.disk)
      rw [quiet.1, quiet.2]
      exact complete h (.inl none_)
    simp only
    refine Fallible.wp_when.mpr ⟨fun _ => ?_, fun _ => ?_⟩
    · refine ends_writeDefinition fun result w₁ quiet => ?_
      cases result with
      | error e => exact ends _ _ _ (sized.quiet quiet) rfl quiet.1 fun n ok => by cases ok
      | ok _ => exact folds quiet
    · exact folds (.refl _)

/-- What a refresh leaves. -/
theorem Kept.ends_refresh [LawfulRounding F]
    {post : Except EngineError Nat → Maintained F → ViewWorld F → Prop} (kept : s.Kept m w)
    (serves : m.Serves)
    (ends : ∀ result s' w', s'.Kept m w' →
      (s'.source.liveRows w'.source.disk).Perm (s.source.liveRows w.source.disk) →
      (∀ n, result = .ok n → s.Updated m w s' w') → post result s' w') :
    ViewM.Ends (refresh m.lower m.registry m.source.name) post s w := by
  unfold refresh
  simp only [Fallible.wp_bind, Fallible.wp_read]
  rw [if_neg (not_not.mpr kept.of_.symm)]
  split
  · exact ends _ _ _ kept (.refl _) fun n ok => by cases ok
  refine Fallible.wp_bind.mpr
    (ends_inSource (ends_flush kept.steady fun flushed t v stepped same => ?_))
  have kept₁ := kept.goesOn stepped
  have carried (complete : s.Complete m w) : Complete m { s with source := t }
    { w with source := v } := complete.goesOn same
  cases flushed with
  | error e => exact ends _ _ _ kept₁ same fun n ok => by cases ok
  | ok _ =>
    -- What is left of the refresh starts from the source as it is after the flush.
    have rests (result : Except EngineError Nat) (s' : Maintained F) (w' : ViewWorld F)
      (kept' : s'.Kept m w') (source : s'.source = t)
        (disk : w'.source.disk = v.disk) (updated : ∀ n, result = .ok n →
          Updated m { s with source := t } { w with source := v } s' w') :
        post result s' w' := by
      refine ends _ s' w' kept' ?_ fun n ok => (updated n ok).since rfl carried
      rw [source, disk]
      exact same
    simp only [Fallible.wp_bind, Fallible.wp_read, Fallible.wp_ofExcept, kept₁.info, kept.sql]
    cases derived : Definition.of m.registry m.lower m.sql m.source none s.view.width with
    | error e => exact rests _ _ _ kept₁ rfl rfl fun n ok => by cases ok
    | ok found =>
      obtain ⟨definition, read⟩ := found
      obtain ⟨g, rfl, rfl⟩ := serves.folding kept.narrow derived
      simp only
      split
      · next sized => exact kept₁.ends_repair serves g (.inr rfl) sized rests
      next unsized =>
      obtain ⟨other, zero⟩ := not_or.mp unsized
      have zero := not_not.mp zero
      refine Fallible.wp_bind.mpr
        (kept₁.ends_sourceSpan serves (fun e w₁ quiet => ?_) fun span w₁ quiet bare => ?_)
      · exact rests _ _ _ (kept₁.quiet quiet) rfl quiet.1 fun n ok => by cases ok
      cases span with
      | none =>
        have complete : Complete m { s with source := t } w₁ :=
          (kept₁.quiet quiet).complete_bare g other zero (by rw [quiet.1]; exact bare rfl)
        refine (kept₁.quiet quiet).ends_stampNow complete 0
          fun result s' w' kept' source disk moved => ?_
        exact rests _ s' w' kept' source (disk.trans quiet.1) fun n ok =>
          ⟨(moved n ok).1, fun _ => (moved n ok).2⟩
      | some span =>
        obtain ⟨low, high⟩ := span
        refine (kept₁.quiet quiet).ends_sizing serves zero low high
          fun result s' w' kept' source disk updated => ?_
        refine rests _ s' w' kept' source (disk.trans quiet.1) fun n ok =>
          (updated n ok).since rfl fun complete width h under => ?_
        rw [quiet.1, quiet.2]
        exact complete h under

end Maintained

/-! ### A new view -/

section New

variable {lower : String → Except QueryError (Plan F)} {registry : Registry F} {name sql : String}
  {source : TableInfo} {view : MaterializedView F}
variable {schema : Schema} {orderingKey : Nat} {keys : List GroupKey} {items : List AggItem}
  {plan : Plan F} {output : QueryOutput F}

theorem assembleItems_names (grouping : GroupPlan F) (unified : List Dictionary)
    (groups : List (ClosedGroup F)) (call : Nat) :
    (assembleItems keys grouping unified groups items call).map
    (fun column => column.1.name) = items.map AggItem.outputName := by
  induction items generalizing call with
  | nil => rfl
  | cons item items ih =>
    cases item with
    | key term as =>
      rw [assembleItems, List.map_cons, List.map_cons, ih]
      congr 1
      unfold assembleGroupKey
      split <;> rfl
    | call aggregate =>
      rw [assembleItems, List.map_cons, List.map_cons, ih]
      congr 1
      unfold assembleAggregate
      split <;> rfl

/-- The columns of an answer over no row have the names of the items. -/
theorem executePlanEmpty_names (groups : plan.Groups keys items)
    (ran : executePlanEmpty registry source plan = .ok output) :
    output.schema.fields.map Field.name = items.map AggItem.outputName := by
  have ran := except_mapError_ok ran
  unfold executeWithOrderingKey at ran
  split at ran
  · cases ran
  obtain ⟨views, -, ran⟩ := except_bind_ok ran
  obtain ⟨grouping, -, ran⟩ := except_bind_ok (finish_projects groups ran)
  obtain ⟨⟨closed, unified⟩, -, ran⟩ := except_bind_ok ran
  rw [← Except.ok.inj ran]
  simp only [List.map_map]
  exact assembleItems_names grouping unified closed 0

omit [F64Math F] in
/-- The ordering key of a new table is the column of its name, and no column has the reserved one.
-/
theorem validatedOrderingIndex_ok {key : String} {index : Nat}
    (found : validatedOrderingIndex schema key = .ok index) :
    columnIndex schema key = .ok index ∧ ∀ field ∈ schema.fields, field.name ≠ sequenceColumn := by
  unfold validatedOrderingIndex at found
  split at found
  · cases found
  next free =>
  refine ⟨?_, by simpa using free⟩
  unfold columnIndex
  cases place : schema.fields.findIdx? (·.name = key) with
  | none =>
    rw [place] at found
    cases found
  | some there =>
    rw [place] at found
    exact congrArg Except.ok (Except.ok.inj found)

omit [F64Math F] in
theorem columnIndex_named {key : String} {index : Nat} {shown : List String}
    (names : schema.fields.map Field.name = shown)
    (found : columnIndex schema key = .ok index) : shown.findIdx? (· = key) = some index := by
  rw [← names, List.findIdx?_map]
  exact columnIndex_ok found

/-- A view with nothing folded, whose table is laid out for its definition. -/
structure MaterializedView.Laid (lower : String → Except QueryError (Plan F))
    (registry : Registry F) (sql : String) (source : TableInfo)
    (view : MaterializedView F) : Prop where
  layout : ∃ definition read output, Definition.of registry lower sql source none 1 =
    .ok (definition, read) ∧
    executePlanEmpty registry source definition.plan = .ok output ∧
    view.table.schema = ⟨output.schema.fields.map (Field.asBucket definition.bucketName)⟩ ∧
    columnIndex view.table.schema definition.bucketName = .ok view.table.orderingKey
  plain : ∀ field ∈ view.table.schema.fields, field.name ≠ sequenceColumn
  sql_ : view.sql = sql
  source_ : view.source = source.name
  stamp : view.stamp = 0
  width : view.width = 0

theorem MaterializedView.laid_out {shape : Schema × String} {index : Nat}
    (validated : validatedDefinition lower registry sql source = .ok shape)
    (checked : validatedOrderingIndex shape.1 shape.2 = .ok index)
    (schema : view.table.schema = shape.1) (orderingKey : view.table.orderingKey = index)
    (text : view.sql = sql) (from_ : view.source = source.name) (stamp : view.stamp = 0)
    (width : view.width = 0) :
    view.Laid lower registry sql source := by
  obtain ⟨plan, -, validated⟩ := except_bind_ok validated
  split at validated
  · cases validated
  obtain ⟨⟨definition, read⟩, found, validated⟩ := except_bind_ok validated
  obtain ⟨output, ran, validated⟩ := except_bind_ok validated
  obtain rfl := Except.ok.inj validated
  obtain ⟨indexed, free⟩ := validatedOrderingIndex_ok checked
  rw [← schema, ← orderingKey] at indexed
  rw [← schema] at free
  exact ⟨⟨definition, read, output, except_mapError_ok found, except_mapError_ok ran, schema,
    indexed⟩, free, text, from_, stamp, width⟩

theorem MaterializedView.new_laid
    (made : MaterializedView.new lower registry name sql source = .ok view) :
    view.Laid lower registry sql source ∧
    ∃ schema index, Store.withSegmentRows schema index defaultSegmentRows = .ok view.table := by
  obtain ⟨shape, validated, made⟩ := except_bind_ok made
  obtain ⟨table, tabled, made⟩ := except_bind_ok made
  obtain rfl := Except.ok.inj made
  obtain ⟨index, checked, tabled⟩ := except_bind_ok tabled
  have built := except_mapError_ok tabled
  obtain ⟨schema, orderingKey, -⟩ := @Store.withSegmentRows_steady F _ _ .empty _ _ _ built
  exact ⟨laid_out validated checked schema orderingKey rfl rfl rfl rfl, _, _, built⟩

omit [F64Math F] in
theorem Field.asBucket_name (bucket : String) (field : Field) :
    (field.asBucket bucket).name = field.name := by
  unfold Field.asBucket
  split <;> rfl

/-- The table of a new view can hold what its definition makes, under every width. -/
theorem MaterializedView.Laid.serves (laid : view.Laid lower registry sql source) (keyed : source.Keyed)
    (clear : ∀ plan, lower sql = .ok plan → plan.Clear source) :
    Making.Serves ⟨lower, registry, sql, source, view.info⟩ := by
  obtain ⟨definition, read, output, found, ran, schema, indexed⟩ := laid.layout
  obtain ⟨-, every⟩ := Definition.of_fits keyed clear found ran
  obtain ⟨first, keys₁, items₁, bucket₁, column₁, derived₁, fits₁, -, names₁⟩ := every 1 (by decide)
  obtain ⟨rfl, -⟩ := Prod.mk.inj (Except.ok.inj (derived₁.symm.trans found))
  have shown : view.table.schema.fields.map Field.name = items₁.map AggItem.outputName := by
    rw [schema, List.map_map, ← executePlanEmpty_names fits₁.groups ran]
    exact List.map_congr_left fun field _ => Field.asBucket_name _ field
  refine ⟨keyed, laid.plain, fun {_ _ width} narrow derived => ?_⟩
  obtain ⟨other, keys, items, bucket, column, again, fits, bucketName, names⟩ := every width narrow
  obtain ⟨rfl, rfl⟩ := Prod.mk.inj (Except.ok.inj (again.symm.trans derived))
  have here : columnIndex view.table.schema other.bucketName = .ok view.table.orderingKey := by
    rw [bucketName]
    exact indexed
  obtain rfl : column = view.info.orderingKey := by
    have place := columnIndex_named (shown.trans (names₁.trans names.symm)) indexed
    rw [List.findIdx?_map, ← bucketName] at place
    exact Option.some.inj (fits.named.symm.trans place)
  exact ⟨⟨other, _, keys, items, bucket, derived, fits, here⟩, rfl, rfl⟩

omit [F64Math F] in
theorem Store.Steady.bare [F64 F] {t : Store F} {disk : Disk F} (steady : t.Steady disk [] [])
    (bare : t.buffer.rows = []) : t.liveRows disk = [] := by
  have values := steady.sound.latest_values
  rw [bare] at values
  rw [steady.sound.liveRows_living, steady.sound.bookOn, Store.book, List.map_eq_nil_iff.mp values]
  rfl

omit [F64Math F] in
theorem wp_opened [F64 F] {chosen : StoreOptions} {w : World F} (blank : w.disk.Blank) :
    Program.wp backend (fun _ _ _ => True) (fun _ => True)
      (Store.persistentWith schema orderingKey chosen) (fun result w' => ∀ t, result = .ok t →
      t.schema = schema ∧ t.orderingKey = orderingKey ∧ t.Steady w'.disk [] [] ∧
      t.liveRows w'.disk = []) w := by
  refine Store.wp_persistentWith (fun e _ t ok => by cases ok) fun fresh made => ?_
  obtain ⟨unfilled, rfl, rfl, -, generation, sections⟩ := Store.unopened_unfilled made
  have restarts : Fallible.wp backend (fun _ _ _ => True) (fun _ => True) Store.openBackend
    (fun result t w' => ∀ u, result = .ok u →
      fresh.Restarts .blank t w'.disk) fresh w :=
    Store.wp_createSteady unfilled sections generation blank (fun _ _ => trivial)
      (fun e t w' _ u ok => by cases ok) fun t w' done u _ => done
  have opens : Fallible.wp backend (fun _ _ _ => True) (fun _ => True) Store.openBackend
    (fun result t w' => ∀ u, result = .ok u →
      fresh.Opens .blank t w'.disk) fresh w :=
    Store.wp_openBackend_blank unfilled sections generation blank (fun _ _ => trivial)
      (fun e t w' _ _ _ u ok => by cases ok) fun t w' _ done u _ => done
  refine Fallible.wp_mono (Fallible.wp_and restarts opens) (fun result t w' both t' ok => ?_)
    fun _ _ => trivial
  cases result with
  | error e => cases ok
  | ok u =>
    obtain rfl := Except.ok.inj ok
    have rows := (both.2 u rfl).rows
    rw [Image.blank_replay] at rows
    have steady := (both.1 u rfl).steady
    exact ⟨(both.1 u rfl).schema, (both.1 u rfl).orderingKey, steady, steady.bare rows⟩

/-- A new view beside a table keeps to what it keeps to. -/
theorem MaterializedView.Laid.kept (s : Maintained F) (w : ViewWorld F)
    (laid : s.view.Laid lower registry sql source) (is : s.source.Is source)
    (steady : ∃ segments past, s.source.Steady w.source.disk segments past)
    (tabled : s.view.table.Steady w.table.disk [] [])
    (bare : s.view.table.liveRows w.table.disk = []) :
    s.Kept ⟨lower, registry, sql, source, s.view.info⟩ w := by
  refine ⟨is, steady, ⟨rfl, rfl⟩, ⟨_, _, tabled⟩, laid.sql_, laid.source_, ?_, fun _ _ _ => bare,
    fun g _ => ?_, fun g _ row member => ?_⟩
  · rw [laid.width]
    decide
  · rw [laid.stamp, bare]
    exact .start g.fits.fold_nil _
  · rw [bare] at member
    cases member

theorem MaterializedView.wp_newPersistent {s : Store F} {w : ViewWorld F} (blank : w.table.disk.Blank) :
    Program.wp viewBackend (fun _ _ _ => True) (fun _ => True)
      (MaterializedView.newPersistent lower registry name sql source s) (fun result w' =>
      ∀ made, result = .ok made → made.source = s ∧ w'.source.disk = w.source.disk ∧
      made.view.Laid lower registry sql source ∧
        made.view.table.Steady w'.table.disk [] [] ∧
        made.view.table.liveRows w'.table.disk = []) w := by
  unfold MaterializedView.newPersistent
  split
  · intro made ok
    cases ok
  next layout laid =>
  obtain ⟨shape, validated, laid⟩ := except_bind_ok laid
  obtain ⟨index, checked, laid⟩ := except_bind_ok laid
  obtain rfl := Except.ok.inj laid
  rw [Program.wp_bind]
  refine Program.wp_within (fun _ _ _ _ => trivial) (fun _ _ => trivial)
    (Program.wp_mono (wp_opened blank) (fun opened v opens => ?_) fun _ _ => trivial)
  cases opened with
  | error e =>
    intro made ok
    cases ok
  | ok table =>
    obtain ⟨schema, orderingKey, steady, bare⟩ := opens table rfl
    simp only
    rw [Program.wp_bind]
    have written : ViewM.Ends writeDefinition
      (fun _ made w' => made = ⟨s, ⟨name, table, sql, source.name, 0, 0, true, false⟩⟩ ∧
        ViewWorld.Quiet { w with table := v } w')
        ⟨s, ⟨name, table, sql, source.name, 0, 0, true, false⟩⟩ { w with table := v } :=
      Maintained.ends_writeDefinition fun _ _ quiet => ⟨rfl, quiet⟩
    refine Program.wp_mono written (fun out w' ends made ok => ?_) fun _ _ => trivial
    obtain ⟨result, after⟩ := out
    obtain ⟨rfl, quiet⟩ := ends
    cases result with
    | error e => cases ok
    | ok _ =>
      obtain rfl := Except.ok.inj ok
      refine ⟨rfl, quiet.1, MaterializedView.laid_out validated checked schema orderingKey rfl rfl
        rfl rfl, ?_, ?_⟩
      · rw [quiet.2]
        exact steady
      · rw [quiet.2]
        exact bare

end New

/-! ### Every life -/

/-- What is done with a view and its source. -/
inductive Attention (m : Making F) : ViewM F Nat → Prop
  | source (op : Op F) : Attention m (inSource (Table.storage op.perform))
  | refresh : Attention m (refresh m.lower m.registry m.source.name)
  | compact : Attention m (inTable (Table.storage Op.compact.perform))

/-- A view in memory or in a directory, from its making over a table on. Any call may fail. -/
inductive Attended (m : Making F) : Maintained F → ViewWorld F → Prop
  | made {rules : Rules F} {options : StoreOptions → Prop}
        {allow : World F → Call F → Outcome → Prop} {name : String} {s : Store F} {disk : Disk F}
      {view : MaterializedView F}
        (reached : Reached rules m.source.schema m.source.orderingKey options allow (.up s disk))
      (made : MaterializedView.new m.lower m.registry name m.sql m.source = .ok view)
        (table : m.table = view.info) :
      Attended m ⟨s, view⟩ ⟨⟨disk, []⟩, ⟨.empty, []⟩, none⟩
  | persisted {rules : Rules F} {options : StoreOptions → Prop}
      {allow : World F → Call F → Outcome → Prop} {name : String} {s : Store F}
      {disk blank : Disk F} {made : Maintained F} {w : ViewWorld F} {plan rest : List Outcome}
      (reached : Reached rules m.source.schema m.source.orderingKey options allow (.up s disk))
        (empty : blank.Blank)
      (ran : Program.run viewBackend
        (MaterializedView.newPersistent m.lower m.registry name m.sql m.source s)
        ⟨⟨disk, []⟩, ⟨blank, []⟩, none⟩ plan =
        .returned (.ok made) w rest) (table : m.table = made.view.info) :
      Attended m made w
  | step {s s' : Maintained F} {w w' : ViewWorld F} {x : ViewM F Nat} {plan rest : List Outcome}
      {result : Except EngineError Nat}
      (attended : Attended m s w) (attention : Attention m x)
        (ran : Program.run viewBackend (x s) w plan = .returned (result, s') w' rest) :
      Attended m s' w'

omit [F64Math F] in
theorem ViewM.runs {α : Type} {x : ViewM F α} {s : Maintained F} {w : ViewWorld F} {value : α}
    (returned : (Program.complete viewBackend .ok (x s) w).1.1 = .ok value) : ∃ plan,
    Program.run viewBackend (x s) w plan =
      .returned (.ok value, (Program.complete viewBackend .ok (x s) w).1.2)
        (Program.complete viewBackend .ok (x s) w).2 [] := by
  obtain ⟨plan, -, ran⟩ :=
    @Program.run_complete _ _ _ _ _ viewBackend (fun _ _ _ => True) .ok (x s) w (fun _ _ => trivial)
  refine ⟨plan, ran.trans ?_⟩
  rw [← returned]

theorem Attended.completes {s : Maintained F} {w : ViewWorld F} {x : ViewM F Nat}
    (attended : Attended m s w) (attention : Attention m x) :
    Attended m (Program.complete viewBackend .ok (x s) w).1.2
      (Program.complete viewBackend .ok (x s) w).2 := by
  obtain ⟨plan, -, ran⟩ :=
    @Program.run_complete _ _ _ _ _ viewBackend (fun _ _ _ => True) .ok (x s) w (fun _ _ => trivial)
  exact .step attended attention ran

section Life

variable [LawfulRounding F] {s s' : Maintained F} {w w' : ViewWorld F}
  {plan rest : List Outcome} {n : Nat}

theorem Attended.kept (keyed : m.source.Keyed)
    (clear : ∀ plan, m.lower m.sql = .ok plan → plan.Clear m.source) (attended : Attended m s w) :
    m.Serves ∧ s.Kept m w := by
  induction attended with
  | @made _ _ _ _ s disk view reached made table =>
    obtain ⟨schema, orderingKey, segments, past, steady, -⟩ := reached.upheld upholds_steady
    obtain ⟨lower, registry, sql, source, info⟩ := m
    obtain rfl : info = view.info := table
    obtain ⟨laid, _, _, built⟩ := MaterializedView.new_laid made
    obtain ⟨-, -, tabled, -, -, -, bare, -⟩ := @Store.withSegmentRows_steady F _ _ .empty _ _ _ built
    exact ⟨laid.serves keyed clear,
      MaterializedView.Laid.kept ⟨s, view⟩ ⟨⟨disk, []⟩, ⟨.empty, []⟩, none⟩ laid
      ⟨schema.symm, orderingKey.symm⟩ ⟨_, _, steady⟩ tabled
      (tabled.bare bare)⟩
  | @persisted _ _ _ name s disk blank made w plan rest reached empty ran table =>
    obtain ⟨schema, orderingKey, segments, past, steady, -⟩ := reached.upheld upholds_steady
    obtain ⟨lower, registry, sql, source, info⟩ := m
    obtain rfl : info = made.view.info := table
    have ends := Program.wp_sound
      (@MaterializedView.wp_newPersistent F _ lower registry name sql source s ⟨⟨disk, []⟩,
      ⟨blank, []⟩, none⟩ empty)
      (Program.admits_all _ _ plan)
    rw [ran] at ends
    obtain ⟨rfl, same, laid, tabled, bare⟩ := ends made rfl
    have stays : made.source.Steady w.source.disk segments past := by
      rw [same]
      exact steady
    exact ⟨laid.serves keyed clear,
      MaterializedView.Laid.kept made w laid ⟨schema.symm, orderingKey.symm⟩ ⟨_, _, stays⟩ tabled bare⟩
  | @step s s' w w' x plan rest result attended attention ran ih =>
    obtain ⟨serves, kept⟩ := ih
    refine ⟨serves, ?_⟩
    have ends : ViewM.Ends x (fun _ s' w' => s'.Kept m w') s w := by
      cases attention with
      | source op =>
          exact ends_inSource (ends_perform kept.steady fun _ _ _ stepped _ => kept.goesOn stepped)
      | refresh => exact kept.ends_refresh serves fun _ _ _ kept' _ _ => kept'
      | compact =>
          exact ends_inTable (ends_perform kept.tabled fun _ _ _ stepped same =>
            kept.rearranged stepped (same rfl rfl))
    exact Fallible.wp_ran ends ran

/-- A refresh that returns leaves the stamp at the next coordinate of the source. If it has moved
it, the table shows what the definition makes of the live rows of the source, whatever was done and
whatever failed before. -/
theorem Attended.refresh_folds (keyed : m.source.Keyed)
    (clear : ∀ plan, m.lower m.sql = .ok plan → plan.Clear m.source) (attended : Attended m s w)
    (ran : Program.run viewBackend (refresh m.lower m.registry m.source.name s) w plan =
      .returned (.ok n, s') w' rest) :
    s'.view.stamp = s'.source.nextSequence ∧ (s'.source.liveRows w'.source.disk).Perm
      (s.source.liveRows w.source.disk) ∧
      (s.view.stamp < s'.view.stamp → ∀ definition read,
        Definition.of m.registry m.lower m.sql m.source none s'.view.width = .ok (definition, read) →
        ∃ keys items order out, definition.plan.Groups keys items ∧
        order.Perm (s'.source.liveRows w'.source.disk) ∧
          answer m.source.schema (some m.source.orderingKey) keys items
          (keep m.source.schema definition.plan.predicate order) = .ok out ∧
          (s'.view.table.liveRows w'.table.disk).Perm out) := by
  obtain ⟨serves, kept⟩ := attended.kept keyed clear
  have ends : ViewM.Ends (refresh m.lower m.registry m.source.name) (fun result s' w' => s'.Kept m w' ∧
      (s'.source.liveRows w'.source.disk).Perm (s.source.liveRows w.source.disk) ∧
      ∀ n, result = .ok n → s.Updated m w s' w') s w :=
    kept.ends_refresh serves fun _ _ _ kept' same updated => ⟨kept', same, updated⟩
  obtain ⟨kept', same, updated⟩ := Fallible.wp_ran ends ran
  refine ⟨(updated n rfl).stamp, same, fun moved definition read derived => ?_⟩
  obtain ⟨g, rfl, rfl⟩ := serves.folding kept'.narrow derived
  obtain ⟨order, out, arranged, folds, shows⟩ := (updated n rfl).complete (.inl moved) g (.inr rfl)
  exact ⟨g.keys, g.items, order, out, g.fits.groups, arranged, folds, shows⟩

end Life

def pairedMaking (table : TableInfo) : Making UInt64 :=
  ⟨fun _ => .ok paired, noFunctions, "", ⟨"t", tagged, 0⟩, table⟩

theorem pairedMaking_keyed (table : TableInfo) : (pairedMaking table).source.Keyed :=
  ⟨⟨.new "at" .i64 false, rfl, rfl, rfl⟩, rfl⟩

theorem pairedMaking_clear (table : TableInfo) : ∀ plan, (pairedMaking table).lower
      (pairedMaking table).sql = .ok plan →
    plan.Clear (pairedMaking table).source := by
  intro plan lowered
  obtain rfl := Except.ok.inj lowered
  refine ⟨fun key member => ?_, by decide, fun _ => by decide +kernel⟩
  obtain rfl := List.mem_singleton.mp member
  show (1 : Int64) ≤ 2
  decide

def pairedRefresh : Option
      ((Store UInt64 × Disk UInt64) × MaterializedView UInt64 ×
      (Maintained UInt64 × ViewWorld UInt64) × Definition UInt64 × ReadShape) := do
  let stored ← stocked
  let view ← (MaterializedView.new (fun _ => .ok paired) noFunctions "v" "" ⟨"t", tagged, 0⟩).toOption
  let refreshed := Program.complete viewBackend
    .ok (refresh (fun _ => .ok paired) noFunctions "t" ⟨stored.1, view⟩)
    ⟨⟨stored.2, []⟩, ⟨.empty, []⟩, none⟩
  let _ ← refreshed.1.1.toOption
  let derived ← (Definition.of noFunctions (fun _ => .ok paired) "" ⟨"t", tagged, 0⟩ none
    refreshed.1.2.view.width).toOption
  return (stored, view, (refreshed.1.2, refreshed.2), derived)

theorem Attended.refresh_folds_paired :
    ∃ (s : Maintained UInt64) (w : ViewWorld UInt64) (definition :
      Definition UInt64) (keys : List GroupKey)
    (items : List AggItem) (order out : List (Row UInt64)), definition.plan.Groups keys items ∧
    order.Perm (s.source.liveRows w.source.disk) ∧
      answer tagged (some 0) keys items (keep tagged definition.plan.predicate order) = .ok out ∧
      (s.view.table.liveRows w.table.disk).Perm out := by
  obtain ⟨⟨stored, view, ⟨s, w⟩, derived⟩, made⟩ : ∃ made, pairedRefresh = some made :=
    Option.isSome_iff_exists.mp (by decide +kernel)
  have moved : pairedRefresh.map (fun made => decide (made.2.1.stamp < made.2.2.1.1.view.stamp)) =
    some true := by decide +kernel
  rw [made] at moved
  rw [pairedRefresh] at made
  obtain ⟨stored₀, stocks, made⟩ := Option.bind_eq_some_iff.mp made
  obtain ⟨view₀, viewed, made⟩ := Option.bind_eq_some_iff.mp made
  obtain ⟨n, finished, made⟩ := Option.bind_eq_some_iff.mp made
  obtain ⟨derived₀, derives, same⟩ := Option.bind_eq_some_iff.mp made
  cases same
  have attended : Attended (pairedMaking view.info) ⟨stored.1, view⟩
      ⟨⟨stored.2, []⟩, ⟨.empty, []⟩, none⟩ :=
    .made (stocked_reached stocks) (except_of_toOption viewed) rfl
  obtain ⟨plan, ran⟩ := ViewM.runs (except_of_toOption finished)
  obtain ⟨-, -, folds⟩ := attended.refresh_folds (pairedMaking_keyed _) (pairedMaking_clear _) ran
  exact ⟨_, _, derived.1, folds (of_decide_eq_true (Option.some.inj moved)) derived.1 derived.2
    (except_of_toOption derives)⟩

end TallyDB
