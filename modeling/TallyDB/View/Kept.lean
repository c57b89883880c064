import TallyDB.StorageLite.Compactable
import TallyDB.View.Refresh

/-!
# What a view keeps to

Below its stamp a view's table is the fold of its source, outside some buckets that were
touched since. Every step of the source and of the view keeps to this, whatever fails.
-/

namespace TallyDB

open Crash Chronicle

variable {F : Type}

/-! ### The rows of a store -/

section Rows

variable [F64 F] {schema : Schema} {orderingKey : Nat} {row : Row F} {s : Store F} {disk : Disk F}
  {segments past : List (Segment F)}

omit [F64 F] in
theorem validateCells_at {fields : List Field} {place : Nat} {field : Field}
    (same : row.length = fields.length)
    (valid : validateCells fields row = .ok ()) (declared : fields[place]? = some field) :
    ∃ cell, row[place]? = some cell ∧ validateCell field cell = .ok () := by
  induction fields generalizing row place with
  | nil => cases declared
  | cons first fields ih =>
    cases row with
    | nil => cases same
    | cons cell row =>
      obtain ⟨_, head, later⟩ := except_bind_ok valid
      cases place with
      | zero =>
        obtain rfl := Option.some.inj declared
        exact ⟨cell, rfl, head⟩
      | succ place => exact @ih row place (Nat.succ.inj same) later declared

omit [F64 F] in
theorem Schema.Axis.cell (axis : schema.Axis orderingKey) (valid : schema.validate row = .ok ()) :
    row[orderingKey]? = some (.i64 (orderingValue orderingKey row)) := by
  obtain ⟨field, declared, typed, required⟩ := axis
  unfold Schema.validate at valid
  split at valid
  · cases valid
  next same =>
  obtain ⟨cell, here, checked⟩ := validateCells_at (not_not.mp same) valid declared
  rw [orderingValue, here]
  cases cell <;> simp_all [validateCell, RowValue.hasType]

theorem Store.Sound.facts_valid (sound : s.Sound disk segments past) :
    ∀ fact ∈ (s.book segments past).facts, s.schema.validate fact.value = .ok () := by
  intro fact member
  rcases List.mem_append.mp member with latest | ended
  · have value : fact.value ∈ segments.flatMap Segment.rows ++ s.buffer.rows :=
      sound.latest_values ▸ List.mem_map_of_mem latest
    rcases List.mem_append.mp value with stored | buffered
    · obtain ⟨segment, inside, held⟩ := List.mem_flatMap.mp stored
      obtain ⟨place, -, same⟩ := List.mem_map.mp held
      rw [← same]
      exact (sound.segmentsOk segment inside).mapped.validates place
    · have valid := s.buffer.valid _ buffered
      rwa [sound.bufferSchema] at valid
  · obtain ⟨segment, inside, held⟩ := List.mem_flatMap.mp ended
    obtain ⟨place, -, rfl⟩ := List.mem_map.mp held
    exact (sound.pastOk segment inside).mapped.validates place

theorem Store.Sound.live_valid (sound : s.Sound disk segments past) : ∀ row ∈ s.liveRows disk,
    s.schema.validate row = .ok () := by
  intro row member
  rw [sound.liveRows_living, sound.bookOn] at member
  obtain ⟨fact, alive, rfl⟩ := List.mem_map.mp member
  exact sound.facts_valid fact (List.mem_of_mem_filter alive)

theorem Store.Sound.live_names (sound : s.Sound disk segments past) {name : String}
    (named : columnIndex s.schema name = .ok s.orderingKey) :
    ∀ row ∈ s.liveRows disk, NamesI64 s.schema row name s.orderingKey
      (orderingValue s.orderingKey row) := by
  intro row member
  have axis := Schema.checkOrderingKey_axis sound.keyed
  refine ⟨named, ?_, Schema.Axis.cell axis (sound.live_valid row member)⟩
  obtain ⟨field, declared, typed, -⟩ := axis
  rw [Schema.typeOf, List.find?_eq_bind_findIdx?_getElem?, columnIndex_ok named, Option.bind_some,
    declared, Option.map_some, typed]

/-! ### Steps of a store -/

variable {s' : Store F} {disk' : Disk F} {segments' past' : List (Segment F)} {op : Op F}
  {result : Except StorageError Nat}

/-- What an operation leaves of what was derived under any stamp. -/
theorem Store.Conduct.spares (conduct : s.Conduct segments past op result s' segments' past')
    (sound : s.Sound disk segments past)
    (sound' : s'.Sound disk' segments' past') (stamp : Nat) : Spares stamp (s.bookOn disk)
      (s'.bookOn disk') := by
  rw [sound.bookOn, sound'.bookOn]
  rcases conduct.turns sound sound' with still | ⟨ids, born, -, -, turns, -⟩
  · exact still.spares
  · exact turns.spares

/-- An operation that names no row and brings none leaves what lives. -/
theorem Store.Conduct.rearranges (conduct : s.Conduct segments past op result s' segments' past')
    (sound : s.Sound disk segments past)
    (sound' : s'.Sound disk' segments' past') (kills : s.killsOf op = [])
    (bare : Store.rowsOf op = []) :
    (s'.liveRows disk').Perm (s.liveRows disk) := by
  have swaps := conduct.swaps sound sound'
  rw [kills, bare, named_nil, List.map_nil] at swaps
  obtain ⟨born, more, fresh, -⟩ := swaps.grows
  obtain rfl : born = [] := List.eq_nil_iff_forall_not_mem.mpr fun row member => by
    cases fresh row member
  simpa using more

theorem Store.Settles.flushes (settles : s.Settles segments s' segments') (past : List (Segment F)) :
    s.Conduct segments past .flush (.error (.tombstoneOutOfRange 0)) s' segments' past :=
  .still _ _ _ _ settles (.inl ⟨_, rfl⟩)

end Rows

/-! ### Folding anew -/

section Refold

variable [F64Math F] [LawfulRounding F] {registry : Registry F} {definition : Definition F}
  {s : Store F} {disk : Disk F}
variable {segments past : List (Segment F)} {source : TableInfo} {keys : List GroupKey}
  {items : List AggItem} {bucket : GroupKey} {column stamp : Nat}
variable {touched : List Int64} {runs : List (Int64 × Int64)} {restricted : Plan F}
  {output : QueryOutput F}

/-- What a walk of the source reports. -/
def Store.Reports (s : Store F) (segments past : List (Segment F)) (stamp : Nat)
    (touched : List Int64) : Prop :=
  ∀ key, key ∈ touched ↔ ∃ fact ∈ (s.book segments past).facts, fact.touched stamp = true ∧
    orderingValue s.orderingKey fact.value = key

/-- A table as a plan sees it. -/
def Store.Is (s : Store F) (source : TableInfo) : Prop :=
  source.schema = s.schema ∧ source.orderingKey = s.orderingKey

namespace Definition.Fits

variable (fits : definition.Fits source keys items bucket column)
include fits

/-- The fold of a definition. -/
@[reducible] def folds : BucketFold QueryError (Row F) (Row F) Int64 :=
  fits.by_.fold definition.plan.predicate

omit [LawfulRounding F] in
theorem fold_nil : fits.folds.fold [] = .ok [] := by
  obtain ⟨grouping, planned⟩ := fits.planned
  have none_ : keep source.schema definition.plan.predicate ([] : List (Row F)) = [] := by
    cases definition.plan.predicate <;> rfl
  change answer source.schema (some source.orderingKey) keys items
    (keep source.schema definition.plan.predicate []) = _
  rw [none_]
  refine answer_iff.mpr ⟨grouping, [], planned, ?_, rfl⟩
  rw [fits.by_.known_nil planned, List.map_nil]
  exact .nil

omit [LawfulRounding F] in
theorem runs_dirty (is : s.Is source) (reports : s.Reports segments past stamp touched)
    (covers : ∀ key, inRanges runs (key / definition.divide) =
      decide (bucket.stored key ∈ touched.map bucket.stored)) (key : Int64) :
    inRanges runs (key / definition.divide) = fits.folds.dirtySince stamp
      (s.book segments past).facts (bucket.stored key) := by
  rw [covers, Bool.eq_iff_iff, decide_eq_true_iff, BucketFold.dirtySince_iff, List.mem_map]
  constructor
  · rintro ⟨other, member, same⟩
    obtain ⟨fact, inside, touch, rfl⟩ := (reports other).mp member
    exact ⟨fact, inside, touch, by rw [← same, ← is.2]; rfl⟩
  · rintro ⟨fact, inside, touch, same⟩
    exact ⟨_, (reports _).mpr ⟨fact, inside, touch, rfl⟩, by rw [← same, ← is.2]; rfl⟩

/-- The restricted definition folds the rows of the dirty buckets. -/
theorem refolds (is : s.Is source)
    (named : columnIndex source.schema source.orderingKeyName = .ok source.orderingKey)
    (sound : s.Sound disk segments past)
    (reports : s.Reports segments past stamp touched)
    (indices : ∀ run ∈ runs, IsIndex definition.divide run.1 ∧ IsIndex definition.divide run.2)
    (covers : ∀ key, inRanges runs (key / definition.divide) =
      decide (bucket.stored key ∈ touched.map bucket.stored))
    (chosen : definition.restrictedTo runs source.orderingKeyName = some restricted)
    (ran : Table.executePlan registry s disk restricted = .ok output) :
    fits.folds.fold ((living (s.book segments past).facts).filter fun row =>
      fits.folds.dirtySince stamp (s.book segments past).facts (fits.folds.bucket row)) =
      .ok output.rows := by
  obtain ⟨ranges, chained, same⟩ := Definition.restrictedTo_eq chosen
  have latest : restricted.asOf = none := by rw [same]; exact fits.plain.asOf
  have kernels : ∀ test ∈ restricted.predicate, test.usesRegistered = false := by
    rw [same]
    intro test member
    obtain rfl := Option.some.inj member
    cases own : definition.plan.predicate with
    | none => exact usesRegistered_ranges chained
    | some test =>
      rw [Option.elim_some, Predicate.usesRegistered, usesRegistered_ranges chained,
        fits.groups.kernels test own]
      rfl
  have groups : restricted.Groups keys items := by
    rw [same] at kernels ⊢
    exact ⟨fits.groups.projection, fits.groups.items, fits.groups.distinct, fits.groups.orderBy,
      fits.groups.limit, fits.groups.offset, kernels⟩
  obtain ⟨views, finished, stored, kept⟩ := sound.computes kernels ran
  rw [latest] at kept
  have names := sound.live_names (by rw [← is.1, ← is.2]; exact named)
  have answered := finish_answers (Schema.checkOrderingKey_axis sound.keyed) stored groups
    (exactBuckets_ofView fits.widths _ _) finished
  change views.flatMap SegmentView.liveRows = keep s.schema restricted.predicate
    (s.liveRows disk) at kept
  rw [kept, ← is.1, ← is.2] at answered
  rw [← is.1, ← is.2] at names
  rw [fits.spells.keep_restricted indices chosen names, sound.liveRows_living, sound.bookOn] at answered
  simp only [fits.runs_dirty is reports covers] at answered
  exact answered

omit [LawfulRounding F] in
/-- The ranges of the view select its rows of the dirty buckets, and their negation the others. -/
theorem selects (sound : s.Sound disk segments past) (at_ : column = s.orderingKey)
    (named : columnIndex s.schema definition.bucketName = .ok column)
    (stored : ∀ row ∈ s.liveRows disk, bucket.StoredIn column row)
    (indices : ∀ run ∈ runs, IsIndex definition.divide run.1 ∧ IsIndex definition.divide run.2)
    {dirty : Int64 → Bool}
    (covers : ∀ key, inRanges runs (key / definition.divide) = dirty (bucket.stored key))
    {ranges : Predicate F}
    (chained : definition.viewRanges runs = some ranges) :
    keep s.schema (some ranges) (s.liveRows disk) = (s.liveRows disk).filter
      (fun row => dirty (orderingValue column row)) ∧
      keep s.schema (some (.not ranges)) (s.liveRows disk) = (s.liveRows disk).filter
        (fun row => !dirty (orderingValue column row)) := by
  subst at_
  have passes (row : Row F) (member : row ∈ s.liveRows disk) :
      (ranges.Passes s.schema row ↔ dirty (orderingValue s.orderingKey row) = true) ∧
        ((Predicate.not ranges).Passes s.schema row ↔
          dirty (orderingValue s.orderingKey row) = false) := by
    obtain ⟨key, cell, value⟩ := (stored row member).value
    have names := sound.live_names named row member
    rw [value] at names ⊢
    rw [← covers]
    exact fits.spells.viewRanges_passes indices chained names
  constructor
  · refine List.filter_congr fun row member => ?_
    rw [Bool.eq_iff_iff, decide_eq_true_iff]
    exact (passes row member).1
  · refine List.filter_congr fun row member => ?_
    rw [Bool.eq_iff_iff, decide_eq_true_iff, Bool.not_eq_true']
    exact (passes row member).2

end Definition.Fits

end Refold

/-! ### Computations over both tables -/

section Ends

variable {α β : Type} {post : Except EngineError α → Maintained F → ViewWorld F → Prop}
  {s : Maintained F} {w w' w'' : ViewWorld F}

/-- What holds at the end of a computation, whatever fails. -/
abbrev ViewM.Ends (x : ViewM F α) (post : Except EngineError α → Maintained F → ViewWorld F → Prop)
    (s : Maintained F) (w : ViewWorld F) : Prop :=
  Fallible.wp viewBackend (fun _ _ _ => True) (fun _ => True) x post s w

abbrev TableM.Ends (x : TableM F α) (post : Except EngineError α → Store F → World F → Prop)
    (s : Store F) (w : World F) : Prop :=
  Fallible.wp backend (fun _ _ _ => True) (fun _ => True) x post s w

theorem ends_inSource {x : TableM F α}
    (pre : TableM.Ends x
      (fun result source v => post result { s with source } { w with source := v }) s.source w.source) :
    ViewM.Ends (inSource x) post s w :=
  Fallible.wp_within (fun _ _ _ _ => trivial) (fun _ _ => trivial) pre

theorem ends_inTable {x : TableM F α}
    (pre : TableM.Ends x
      (fun result table v =>
      post result { s with view := { s.view with table } }
      { w with table := v }) s.view.table w.table) :
    ViewM.Ends (inTable x) post s w :=
  Fallible.wp_within (fun _ _ _ _ => trivial) (fun _ _ => trivial) pre

/-- Nothing was written but a record. -/
def ViewWorld.Quiet (w w' : ViewWorld F) : Prop :=
  w'.source.disk = w.source.disk ∧ w'.table.disk = w.table.disk

theorem ViewWorld.Quiet.refl (w : ViewWorld F) : w.Quiet w := ⟨rfl, rfl⟩

theorem ViewWorld.Quiet.trans (first : w.Quiet w') (second : w'.Quiet w'') : w.Quiet w'' :=
  ⟨second.1.trans first.1, second.2.trans first.2⟩

/-- A store after a step. -/
structure Store.Stepped [F64 F] (s : Store F) (disk : Disk F) (s' : Store F)
    (disk' : Disk F) : Prop where
  steady : ∃ segments past, s'.Steady disk' segments past
  kin : s.Kin s'
  spares : ∀ stamp, Spares stamp (s.bookOn disk) (s'.bookOn disk')

section Steps

variable [F64 F] {s : Store F} {w : World F}

theorem ends_flush {post : Except EngineError Unit → Store F → World F → Prop}
    (steady : ∃ segments past, s.Steady w.disk segments past)
    (ends : ∀ result s' w', s.Stepped w.disk s' w'.disk →
      (s'.liveRows w'.disk).Perm (s.liveRows w.disk) → post result s' w') :
    TableM.Ends (Table.storage Store.flush) post s w := by
  obtain ⟨segments, past, steady⟩ := steady
  refine Fallible.wp_mapError.mpr
    (Store.wp_flushSteady steady (fun _ _ _ _ _ => trivial)
    fun result s' w' segments' settles steady' _ => ?_)
  have conduct := settles.flushes past
  exact ends _ s' w' ⟨⟨_, _, steady'⟩, conduct.kin, conduct.spares steady.sound steady'.sound⟩
    (conduct.rearranges steady.sound steady'.sound rfl rfl)

theorem ends_perform {op : Op F} {post : Except EngineError Nat → Store F → World F → Prop}
    (steady : ∃ segments past, s.Steady w.disk segments past)
    (ends : ∀ result s' w', s.Stepped w.disk s' w'.disk →
      (s.killsOf op = [] → Store.rowsOf op = [] → (s'.liveRows w'.disk).Perm (s.liveRows w.disk)) →
      post result s' w') :
    TableM.Ends (Table.storage op.perform) post s w := by
  obtain ⟨segments, past, steady⟩ := steady
  refine Fallible.wp_mapError.mpr
    (Store.wp_conduct steady (fun _ _ _ _ _ _ _ => trivial)
    fun result s' w' segments' past' conduct steady' => ?_)
  exact ends _ s' w' ⟨⟨_, _, steady'⟩, conduct.kin, conduct.spares steady.sound steady'.sound⟩
    (conduct.rearranges steady.sound steady'.sound)

end Steps

end Ends

/-! ### What is kept to -/

/-- What a view is made of: its SQL, and the shapes of the tables that it reads and fills. -/
structure Making (F : Type) [F64Math F] where
  lower : String → Except QueryError (Plan F)
  registry : Registry F
  sql : String
  source : TableInfo
  table : TableInfo

section Making

variable [F64Math F] {m : Making F} {width : Nat}

def Making.derive (m : Making F) (width : Nat) : Except EngineError (Definition F × ReadShape) :=
  Definition.of m.registry m.lower m.sql m.source none width

/-- A definition of the view, which its table can hold. -/
structure Making.Folding (m : Making F) (width : Nat) where
  definition : Definition F
  read : ReadShape
  keys : List GroupKey
  items : List AggItem
  bucket : GroupKey
  derived : m.derive width = .ok (definition, read)
  fits : definition.Fits m.source keys items bucket m.table.orderingKey
  named : columnIndex m.table.schema definition.bucketName = .ok m.table.orderingKey

@[reducible] def Making.Folding.folds (g : m.Folding width) : BucketFold QueryError (Row F)
      (Row F) Int64 := g.fits.folds

structure Making.Serves (m : Making F) : Prop where
  keyed : m.source.Keyed
  plain : ∀ field ∈ m.table.schema.fields, field.name ≠ sequenceColumn
  folding : ∀ {definition : Definition F} {read : ReadShape} {width : Nat}, width < 2 ^ 63 →
    m.derive width = .ok (definition, read) →
    ∃ g : m.Folding width, g.definition = definition ∧ g.read = read

namespace Maintained

def Under (s : Maintained F) (width : Nat) : Prop := s.view.width = 0 ∨ s.view.width = width

variable {s s' : Maintained F} {w w' : ViewWorld F}

/-- What a process keeps to. The table holds under its stamp the fold of the source, for the width
that was chosen; before that, for every width. -/
structure Kept (m : Making F) (s : Maintained F) (w : ViewWorld F) : Prop where
  source : s.source.Is m.source
  steady : ∃ segments past, s.source.Steady w.source.disk segments past
  table : s.view.table.Is m.table
  tabled : ∃ segments past, s.view.table.Steady w.table.disk segments past
  sql : s.view.sql = m.sql
  of_ : s.view.source = m.source.name
  narrow : s.view.width < 2 ^ 63
  unsized : ∀ {width : Nat} (g : m.Folding width), s.view.width = 0 → g.read ≠ .direct →
    s.view.table.liveRows w.table.disk = []
  stamped : ∀ {width : Nat} (g : m.Folding width), s.Under width →
    g.folds.Stamped s.view.stamp (s.source.bookOn w.source.disk) (s.view.table.liveRows w.table.disk)
  stored : ∀ {width : Nat} (g : m.Folding width), s.Under width →
    ∀ row ∈ s.view.table.liveRows w.table.disk, g.bucket.StoredIn m.table.orderingKey row

/-- The table is the fold of what lives in the source. -/
def Complete (m : Making F) (s : Maintained F) (w : ViewWorld F) : Prop :=
  ∀ {width : Nat} (g : m.Folding width), s.Under width →
    g.folds.Holds (s.source.liveRows w.source.disk) (s.view.table.liveRows w.table.disk)

theorem Kept.info (kept : s.Kept m w) : s.info m.source.name = m.source := by
  obtain ⟨schema, orderingKey⟩ := kept.source
  rw [Maintained.info, ← schema, ← orderingKey]

theorem Kept.quiet (kept : s.Kept m w) (quiet : w.Quiet w') : s.Kept m w' := by
  obtain ⟨source, table⟩ := quiet
  refine ⟨kept.source, ?_, kept.table, ?_, kept.sql, kept.of_, kept.narrow, ?_, ?_, ?_⟩
  · rw [source]
    exact kept.steady
  · rw [table]
    exact kept.tabled
  · rw [table]
    exact kept.unsized
  · rw [source, table]
    exact kept.stamped
  · rw [table]
    exact kept.stored

theorem Kept.goesOn (kept : s.Kept m w) {t : Store F} {v : World F}
    (stepped : s.source.Stepped w.source.disk t v.disk) :
    Kept m { s with source := t } { w with source := v } where
  source := ⟨kept.source.1.trans stepped.kin.schema.symm,
    kept.source.2.trans stepped.kin.orderingKey.symm⟩
  steady := stepped.steady
  table := kept.table
  tabled := kept.tabled
  sql := kept.sql
  of_ := kept.of_
  narrow := kept.narrow
  unsized := kept.unsized
  stamped g under := (kept.stamped g under).goesOn (stepped.spares _)
  stored := kept.stored

theorem Kept.changed (kept : s.Kept m w) {t : Store F} {v : World F}
    (steady : ∃ segments past, t.Steady v.disk segments past) (kin : s.view.table.Kin t)
    (unsized : ∀ {width : Nat} (g : m.Folding width), s.view.width = 0 → g.read ≠ .direct →
      t.liveRows v.disk = [])
    (stamped : ∀ {width : Nat} (g : m.Folding width), s.Under width →
      g.folds.Stamped s.view.stamp (s.source.bookOn w.source.disk) (t.liveRows v.disk) ∧
      ∀ row ∈ t.liveRows v.disk, g.bucket.StoredIn m.table.orderingKey row) :
    Kept m { s with view := { s.view with table := t } } { w with table := v } where
  source := kept.source
  steady := kept.steady
  table := ⟨kept.table.1.trans kin.schema.symm, kept.table.2.trans kin.orderingKey.symm⟩
  tabled := steady
  sql := kept.sql
  of_ := kept.of_
  narrow := kept.narrow
  unsized := unsized
  stamped g under := (stamped g under).1
  stored g under := (stamped g under).2

theorem Kept.rearranged (kept : s.Kept m w) {t : Store F} {v : World F}
    (stepped : s.view.table.Stepped w.table.disk t v.disk)
    (same : (t.liveRows v.disk).Perm (s.view.table.liveRows w.table.disk)) :
    Kept m { s with view := { s.view with table := t } } { w with table := v } := by
  refine kept.changed stepped.steady stepped.kin (fun g zero other => ?_) fun g under =>
    ⟨?_, fun row member => ?_⟩
  · have none_ := kept.unsized g zero other
    rw [none_] at same
    exact same.eq_nil
  · exact (kept.stamped g under).disturbed (same.filter _)
  · exact kept.stored g under row (same.mem_iff.mp member)

end Maintained

end Making

end TallyDB
