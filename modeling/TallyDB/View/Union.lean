import TallyDB.View.Attended

/-!
# Reading a view that is behind

A read joins the clean rows of the table with the touched buckets of the source, folded as
they are now. Together they are the fold of what lives, however far the view is behind.
-/

namespace TallyDB

open Crash Chronicle

variable {F : Type} [F64Math F]

/-! ### Every column -/

section Everything

variable {schema : Schema} {orderingKey : Nat} {registry : Registry F}
  {views : List (SegmentView F)} {table : String}
variable {predicate : Option (Predicate F)} {output : QueryOutput F}

omit [F64Math F] in
/-- Where no two columns share a name, each stands for itself. -/
theorem stands_range (distinct : (schema.fields.map Field.name).Nodup)
    (plain : ∀ field ∈ schema.fields, field.name ≠ sequenceColumn) :
    Stands schema (schema.fields.map Field.name) (List.range schema.fields.length) := by
  rw [Stands, List.forall₂_iff_get]
  refine ⟨by simp, fun place here there => ?_⟩
  have inside : place < schema.fields.length := by simpa using there
  have first : columnIndex schema schema.fields[place].name = .ok place := by
    have found : schema.fields.findIdx? (·.name = schema.fields[place].name) = some place := by
      rw [List.findIdx?_eq_some_iff_getElem]
      refine ⟨inside, by simp, fun earlier before same => ?_⟩
      have early : earlier < (schema.fields.map Field.name).length := by
        simpa using Nat.lt_trans before inside
      have late : place < (schema.fields.map Field.name).length := by simpa using inside
      have alike : (schema.fields.map Field.name).get ⟨earlier, early⟩ =
        (schema.fields.map Field.name).get ⟨place, late⟩ := by simpa using same
      exact absurd (Fin.mk.inj (List.nodup_iff_injective_get.mp distinct alike)) (Nat.ne_of_lt before)
    rw [columnIndex, found]
  simp only [List.get_eq_getElem, List.getElem_map, List.getElem_range]
  exact ⟨plain _ (List.getElem_mem inside), _,
    Schema.resolve_of_index first (List.getElem?_eq_getElem inside)⟩

theorem everything_shown (stored : ∀ view ∈ views, view.segment.Stored schema)
    (filled : schema.fields ≠ [])
    (distinct : (schema.fields.map Field.name).Nodup)
    (plain : ∀ field ∈ schema.fields, field.name ≠ sequenceColumn)
    (ran : finish schema registry (some orderingKey)
      (Table.selectColumns table (schema.fields.map Field.name) predicate) views = .ok output) :
    output.rows = views.flatMap SegmentView.liveRows := by
  obtain ⟨own, projects, rows⟩ :=
    @projectItems_columns F _ schema registry views _ _
    (fun view member => (stored view member).toMapped)
    (by simpa using filled) (stands_range distinct plain)
  unfold finish project at ran
  simp only [Table.selectColumns, hiddenOrder, Option.map_none, Option.toList_none, List.append_nil,
    projects] at ran
  obtain rfl : own = output := Except.ok.inj ran
  rw [rows, List.map_flatMap]
  refine List.flatMap_congr fun view member => ?_
  rw [← SegmentView.hits_cells]
  refine List.map_congr_left fun hit inside => ?_
  obtain ⟨row, -, rfl⟩ := List.mem_map.mp inside
  have width : (view.segment.row row).length = schema.fields.length := by
    rw [Segment.row, List.length_map, (stored view member).binds.length_eq]
  refine List.ext_getElem (by simpa using width.symm) fun place here there => ?_
  rw [List.getElem_map, List.getElem_range]
  exact List.getD_eq_getElem _ _ there

theorem Store.Sound.shows_everything {s : Store F} {disk : Disk F}
    {segments past : List (Segment F)} [LawfulRounding F] (sound : s.Sound disk segments past)
    (kernels : ∀ test ∈ predicate, test.usesRegistered = false)
    (distinct : (s.schema.fields.map Field.name).Nodup)
    (plain : ∀ field ∈ s.schema.fields, field.name ≠ sequenceColumn)
    (ran : Table.executePlan registry s disk
      (Table.selectColumns table (s.schema.fields.map Field.name) predicate) = .ok output) :
    output.rows = keep s.schema predicate (s.liveRows disk) := by
  obtain ⟨views, finished, stored, kept⟩ := sound.computes kernels ran
  obtain ⟨field, declared, -, -⟩ := Schema.checkOrderingKey_axis sound.keyed
  have filled : s.schema.fields ≠ [] := List.ne_nil_of_mem (List.mem_of_getElem? declared)
  exact (everything_shown stored filled distinct plain finished).trans kept

end Everything

namespace Maintained

variable {m : Making F} {s : Maintained F} {w : ViewWorld F} [LawfulRounding F]

/-! ### The union -/

/-- The clean rows and the fresh ones, where anything was touched, are a fold of what lives. -/
theorem Kept.ends_cleanAndFresh {width : Nat}
    {post : Except EngineError (Option (QueryOutput F × QueryOutput F)) → Maintained F → ViewWorld F → Prop}
    (kept : s.Kept m w) (serves : m.Serves)
    (distinct : (m.table.schema.fields.map Field.name).Nodup) (g : m.Folding width)
    (under : s.Under width)
    (refused : ∀ e w', w.Quiet w' → post (.error e) s w')
    (current : ∀ w', w.Quiet w' → s.Complete m w → post (.ok none) s w')
    (behind : ∀ clean fresh w', w.Quiet w' →
      g.folds.Holds (s.source.liveRows w.source.disk) (clean.rows ++ fresh.rows) →
      post (.ok (some (clean, fresh))) s w') :
    ViewM.Ends (cleanAndFresh m.registry m.source.name g.definition) post s w := by
  unfold cleanAndFresh
  simp only [Fallible.wp_bind, Fallible.wp_read]
  refine kept.ends_walk (fun e w' quiet => refused e w' quiet)
    fun touched w₁ segments past quiet steady reports => ?_
  have kept₁ := kept.quiet quiet
  have steady₁ : s.source.Steady w₁.source.disk segments past := quiet.1.symm ▸ steady
  simp only
  rcases g.fits.spells.touchedRuns_cases touched with ⟨rfl, none_⟩ | ⟨-, runs, some_, -,
    indices, covers⟩
  · rw [none_]
    exact current w₁ quiet (kept.complete_untouched steady reports)
  rw [some_]
  simp only [Fallible.wp_bind]
  refine ends_expected (fun e => refused e w₁ quiet) fun restricted chosen => ?_
  rw [kept.info] at chosen
  refine kept₁.ends_sourcePlan (fun e w' later => refused e w' (quiet.trans later))
    fun fresh w₂ later ran => ?_
  have refolds := g.fits.refolds kept.source serves.keyed.named steady₁.sound reports indices
    covers chosen ran
  refine ends_expected (fun e => refused e w₂ (quiet.trans later)) fun ranges chained => ?_
  have kept₂ := kept₁.quiet later
  refine kept₂.ends_tablePlan (fun e w' last => refused e w' ((quiet.trans later).trans last))
    fun clean w₃ last selected => ?_
  refine behind clean fresh w₃ ((quiet.trans later).trans last) ?_
  obtain ⟨tableSegments, tablePast, tabled⟩ := kept.tabled
  rw [(quiet.trans later).2] at selected
  have kernels : ∀ test ∈ some (Predicate.not ranges), test.usesRegistered = false := by
    intro test member
    obtain rfl := Option.some.inj member
    exact (show ranges.usesRegistered = false from usesRegistered_ranges chained)
  have rows := tabled.sound.shows_everything kernels (kept.table.1 ▸ distinct)
    (kept.table.1 ▸ serves.plain) selected
  have dirties := g.fits.runs_dirty kept.source reports covers
  obtain ⟨-, spares⟩ :=
    g.fits.selects tabled.sound kept.table.2 (by rw [← kept.table.1]; exact g.named)
    (kept.stored g under) indices dirties chained
  have stamped := kept.stamped g under
  rw [steady.sound.bookOn] at stamped
  rw [rows, spares, steady.sound.liveRows_living, steady.sound.bookOn]
  exact stamped.patched refolds

/-- What `partialsUnion` reads is a fold of what lives. -/
theorem Kept.ends_partialsUnion {width : Nat}
    {post : Except EngineError (QueryOutput F) → Maintained F → ViewWorld F → Prop} (kept : s.Kept m w)
    (serves : m.Serves) (distinct : (m.table.schema.fields.map Field.name).Nodup)
    (g : m.Folding width) (under : s.Under width)
    (refused : ∀ e w', w.Quiet w' → post (.error e) s w')
    (done : ∀ output w', w.Quiet w' → g.folds.Holds (s.source.liveRows w.source.disk) output.rows →
      post (.ok output) s w') :
    ViewM.Ends (partialsUnion m.registry m.source.name g.definition) post s w := by
  unfold partialsUnion
  simp only [Fallible.wp_bind, Fallible.wp_read]
  refine kept.ends_cleanAndFresh serves distinct g under refused (fun w₁ quiet complete => ?_)
    fun clean fresh w₁ quiet holds => ?_
  · refine (kept.quiet quiet).ends_tablePlan (fun e w' later => refused e w' (quiet.trans later))
      fun output w₂ later selected => ?_
    refine done output w₂ (quiet.trans later) ?_
    obtain ⟨tableSegments, tablePast, tabled⟩ := kept.tabled
    rw [quiet.2] at selected
    have kernels : ∀ test ∈ (none : Option (Predicate F)), test.usesRegistered = false :=
      fun test member => by cases member
    rw [tabled.sound.shows_everything kernels (kept.table.1 ▸ distinct)
      (kept.table.1 ▸ serves.plain) selected]
    exact complete g under
  · refine done _ w₁ quiet ?_
    rw [show QueryOutput.rows { clean with batches := clean.batches ++ fresh.batches } =
      clean.rows ++ fresh.rows from List.flatMap_append]
    exact holds

/-- The rows over which a read runs its plan: at a cut, what the definition makes of the rows known
then; else a fold of what lives, in the table where nothing was touched. -/
inductive ReadOver {width : Nat} (s : Maintained F) (w : ViewWorld F) (g : m.Folding width)
    (userPlan : Plan F) : QueryOutput F → Prop
  | past {cut : Nat} {folded output : QueryOutput F} (at_ : userPlan.asOf = some cut)
      (answers : answer m.source.schema (some m.source.orderingKey) g.keys g.items
        (keep m.source.schema g.definition.plan.predicate
        (s.source.rowsAt w.source.disk (some cut))) = .ok folded.rows)
      (ran : overScratch s.view [] folded { userPlan with asOf := none } = .ok output) :
        ReadOver s w g userPlan output
  | current {output : QueryOutput F} (latest : userPlan.asOf = none)
      (holds : g.folds.Holds (s.source.liveRows w.source.disk) (s.view.table.liveRows w.table.disk))
      (ran : Table.executePlan unregistered s.view.table w.table.disk userPlan = .ok output) :
        ReadOver s w g userPlan output
  | behind {clean fresh output : QueryOutput F} (latest : userPlan.asOf = none)
      (holds : g.folds.Holds (s.source.liveRows w.source.disk) (clean.rows ++ fresh.rows))
      (ran : overScratch s.view clean.batches fresh userPlan = .ok output) :
        ReadOver s w g userPlan output

/-- The query that never writes runs the user's plan over one of those, and leaves the view and both
disks as they were. -/
theorem Kept.ends_queryDirect {width : Nat} {userPlan : Plan F} (kept : s.Kept m w) (serves : m.Serves)
    (distinct : (m.table.schema.fields.map Field.name).Nodup) (g : m.Folding width)
    (under : s.Under width) :
    ViewM.Ends (queryDirect m.registry m.source.name g.definition userPlan)
      (fun result s' w' => s' = s ∧ w.Quiet w' ∧ ∀ output, result = .ok output →
        s.ReadOver w g userPlan output) s w := by
  unfold queryDirect
  simp only [Fallible.wp_bind, Fallible.wp_read]
  split
  · next cut at_ =>
    refine Fallible.wp_bind.mpr
      (kept.ends_sourcePlan (fun e w' quiet => ⟨rfl, quiet, fun _ ok => by cases ok⟩)
      fun folded w' quiet ran => ?_)
    refine ⟨rfl, quiet, fun output done => .past at_ ?_ done⟩
    obtain ⟨segments, past, steady⟩ := kept.steady
    have groups : Plan.Groups { g.definition.plan with asOf := some cut } g.keys g.items := by
      obtain ⟨projection, items, distinct, orderBy, limit, offset, kernels⟩ := g.fits.groups
      exact ⟨projection, items, distinct, orderBy, limit, offset, kernels⟩
    obtain ⟨views, finished, stored, rows⟩ := steady.sound.computes groups.kernels ran
    have answers := finish_answers (Schema.checkOrderingKey_axis steady.sound.keyed) stored groups
      (exactBuckets_ofView g.fits.widths _ _) finished
    rw [rows, ← kept.source.1, ← kept.source.2] at answers
    exact answers
  · next latest =>
    refine Fallible.wp_bind.mpr
      (kept.ends_cleanAndFresh serves distinct g under (fun e w' quiet =>
      ⟨rfl, quiet, fun _ ok => by cases ok⟩)
      (fun w₁ quiet complete => ?_) fun clean fresh w₁ quiet holds => ?_)
    · refine (kept.quiet quiet).ends_tablePlan
        (fun e w' later => ⟨rfl, quiet.trans later, fun _ ok => by cases ok⟩)
        fun output w₂ later ran => ?_
      refine ⟨rfl, quiet.trans later, fun other ok => ?_⟩
      obtain rfl := Except.ok.inj ok
      rw [quiet.2] at ran
      exact .current latest (complete g under) ran
    · exact ⟨rfl, quiet, fun output done => .behind latest holds done⟩

end Maintained

section Life

variable [LawfulRounding F] {m : Making F} {s s' : Maintained F} {w w' : ViewWorld F}
  {plan rest : List Outcome} {output : QueryOutput F}
variable {definition : Definition F} {read : ReadShape}

/-- However far a view is behind, and whatever failed, its clean rows and the touched buckets of the
source make what the definition makes of the live rows of the source, and a query of the view runs
its plan over those. Neither read changes anything. -/
theorem Attended.union_folds (keyed : m.source.Keyed)
    (clear : ∀ plan, m.lower m.sql = .ok plan → plan.Clear m.source)
    (distinct : (m.table.schema.fields.map Field.name).Nodup) (attended : Attended m s w)
    (derived : Definition.of m.registry m.lower m.sql m.source none s.view.width =
      .ok (definition, read))
    (ran : Program.run viewBackend (partialsUnion m.registry m.source.name definition s) w plan =
      .returned (.ok output, s') w' rest) :
    s' = s ∧ w.Quiet w' ∧
    (∀ userPlan answered plan rest s' w',
      Program.run viewBackend (queryDirect m.registry m.source.name definition userPlan s) w plan =
      .returned (.ok answered, s') w' rest →
      s' = s ∧ w.Quiet w' ∧ ∃ g : m.Folding s.view.width, definition = g.definition ∧
      s.ReadOver w g userPlan answered) ∧
    ∃ keys items order out, definition.plan.Groups keys items ∧ order.Perm
      (s.source.liveRows w.source.disk) ∧
      answer m.source.schema (some m.source.orderingKey) keys items
        (keep m.source.schema definition.plan.predicate order) = .ok out ∧
      output.rows.Perm out := by
  obtain ⟨serves, kept⟩ := attended.kept keyed clear
  obtain ⟨g, rfl, rfl⟩ := serves.folding kept.narrow derived
  have ends : ViewM.Ends (partialsUnion m.registry m.source.name g.definition)
    (fun result s' w' => s' = s ∧ w.Quiet w' ∧
      ∀ output, result = .ok output →
      g.folds.Holds (s.source.liveRows w.source.disk) output.rows) s w := by
    refine kept.ends_partialsUnion serves distinct g (.inr rfl)
      (fun e w' quiet => ⟨rfl, quiet, fun _ ok => by cases ok⟩) fun output w' quiet holds => ?_
    refine ⟨rfl, quiet, fun other ok => ?_⟩
    obtain rfl := Except.ok.inj ok
    exact holds
  obtain ⟨same, quiet, holds⟩ := Fallible.wp_ran ends ran
  obtain ⟨order, out, arranged, folds, shows⟩ := holds output rfl
  refine ⟨same, quiet, fun userPlan answered plan rest s' w' ran => ?_, g.keys, g.items, order, out,
    g.fits.groups, arranged, folds, shows⟩
  obtain ⟨same, quiet, reads⟩ :=
    Fallible.wp_ran (kept.ends_queryDirect serves distinct g (.inr rfl)) ran
  exact ⟨same, quiet, g, rfl, reads answered rfl⟩

end Life

def pairedStale : Option
      ((Store UInt64 × Disk UInt64) × MaterializedView UInt64 ×
      (Maintained UInt64 × ViewWorld UInt64) × (Definition UInt64 × ReadShape) ×
    QueryOutput UInt64) := do
  let stored ← stocked
  let view ← (MaterializedView.new (fun _ => .ok paired) noFunctions "v" "" ⟨"t", tagged, 0⟩).toOption
  let refreshed := Program.complete viewBackend
    .ok (refresh (fun _ => .ok paired) noFunctions "t" ⟨stored.1, view⟩)
    ⟨⟨stored.2, []⟩, ⟨.empty, []⟩, none⟩
  let grown := Program.complete viewBackend
    .ok (inSource (Table.storage (Op.append [.i64 3, .key "d"]).perform) refreshed.1.2) refreshed.2
  let derived ← (Definition.of noFunctions (fun _ => .ok paired) "" ⟨"t", tagged, 0⟩ none
    grown.1.2.view.width).toOption
  let output ← (Program.complete viewBackend .ok (partialsUnion noFunctions "t" derived.1 grown.1.2)
    grown.2).1.1.toOption
  return (stored, view, (grown.1.2, grown.2), derived, output)

theorem Attended.union_folds_stale :
    ∃ (s : Maintained UInt64) (w : ViewWorld UInt64) (definition : Definition UInt64) (output :
      QueryOutput UInt64)
    (keys : List GroupKey) (items : List AggItem) (order out : List (Row UInt64)),
    s.view.stamp < s.source.nextSequence ∧
      definition.plan.Groups keys items ∧ order.Perm (s.source.liveRows w.source.disk) ∧
      answer tagged (some 0) keys items (keep tagged definition.plan.predicate order) = .ok out ∧
      output.rows.Perm out := by
  obtain ⟨⟨stored, view, ⟨s, w⟩, derived, output⟩, made⟩ : ∃ made, pairedStale = some made :=
    Option.isSome_iff_exists.mp (by decide +kernel)
  have facts : pairedStale.map
    (fun made => decide (made.2.2.1.1.view.stamp < made.2.2.1.1.source.nextSequence) &&
      decide (made.2.1.table.schema.fields.map Field.name).Nodup) = some true := by decide +kernel
  rw [made] at facts
  obtain ⟨behind, distinct⟩ := Bool.and_eq_true_iff.mp (Option.some.inj facts)
  rw [pairedStale] at made
  obtain ⟨stored₀, stocks, made⟩ := Option.bind_eq_some_iff.mp made
  obtain ⟨view₀, viewed, made⟩ := Option.bind_eq_some_iff.mp made
  obtain ⟨derived₀, derives, made⟩ := Option.bind_eq_some_iff.mp made
  obtain ⟨output₀, answered, same⟩ := Option.bind_eq_some_iff.mp made
  cases same
  have attended : Attended (pairedMaking view.info) ⟨stored.1, view⟩
      ⟨⟨stored.2, []⟩, ⟨.empty, []⟩, none⟩ :=
    .made (stocked_reached stocks) (except_of_toOption viewed) rfl
  have grown := (attended.completes .refresh).completes (.source (.append [.i64 3, .key "d"]))
  obtain ⟨plan, ran⟩ := ViewM.runs (except_of_toOption answered)
  have names : ((pairedMaking view.info).table.schema.fields.map Field.name).Nodup :=
    of_decide_eq_true distinct
  obtain ⟨-, -, -, keys, items, order, out, folds⟩ :=
    grown.union_folds (pairedMaking_keyed _) (pairedMaking_clear _) names
    (except_of_toOption derives) ran
  exact ⟨_, _, derived.1, output, keys, items, order, out, of_decide_eq_true behind, folds⟩

end TallyDB
