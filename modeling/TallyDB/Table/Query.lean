import TallyDB.QueryLite.Answer
import TallyDB.QueryLite.Where
import TallyDB.Table.Matched

/-!
# What a table answers

An aggregate is answered from rows alone: those that live, or those known at the `AS OF`
cut. No segment, mask, zone map or order flag shows in it.
-/

namespace TallyDB

open Crash Chronicle

variable {F : Type}

/-! ### Handles -/

section Handles

variable [F64 F] {disk : Disk F} {schema : Schema}

theorem SegmentHandle.Shows.holds {handle : SegmentHandle F} {view : SegmentView F}
    (shows : handle.Shows disk view)
    (own : view.segment.batch.schema = schema) (stored : view.segment.Stored schema) : handle.Holds
      (disk.reader schema) schema view := by
  obtain ⟨file, yields⟩ := shows.yields
  refine ⟨shows.fetch own, stored, ?_, ?_⟩
  · rw [yields.info]
    rfl
  · rw [yields.info]
    rfl

theorem holds_resident {read : SegmentReader F} {view : SegmentView F}
    (stored : view.segment.Stored schema) :
    (SegmentHandle.resident view.segment view.live).Holds read schema view := ⟨rfl, stored, rfl, rfl⟩

end Handles

namespace Store

variable [F64Math F] {s : Store F} {disk : Disk F} {segments past : List (Segment F)}

/-- The rows that a plan is about: those that live, or those known at its cut. -/
def rowsAt (store : Store F) (disk : Disk F) : Option Nat → List (Row F)
  | none => store.liveRows disk
  | some cut => store.knownAt disk cut

/-- The handles of a query hold those rows. -/
theorem Sound.holds {asOf : Option Nat} {handles : List (SegmentHandle F)}
    (sound : s.Sound disk segments past)
    (taken : Table.handlesFor s disk asOf = .ok handles) : ∃ all,
      List.Forall₂ (SegmentHandle.Holds (disk.reader s.schema) s.schema) handles all ∧
      all.flatMap SegmentView.liveRows = s.rowsAt disk asOf := by
  cases asOf with
  | none =>
    obtain ⟨all, pieces, shows⟩ := sound.snapshot taken
    refine ⟨all.map s.viewOf, forall₂_imp_mem shows fun handle view member shows => ?_, ?_⟩
    · obtain ⟨segment, inside, rfl⟩ := List.mem_map.mp member
      have ok := pieces.ok segment inside
      exact shows.holds ok.schema ok.stored
    · rw [liveRows_pieces pieces, ← sound.shown]
      rfl
  | some cut =>
    unfold Table.handlesFor at taken
    obtain ⟨known, snapped, taken⟩ := except_bind_ok taken
    obtain ⟨views, read, taken⟩ := except_bind_ok taken
    unfold knowledgeSnapshot at snapped
    obtain ⟨latest, snapshot, snapped⟩ := except_bind_ok snapped
    obtain rfl := Except.ok.inj snapped
    obtain ⟨all, pieces, reads⟩ := sound.asOfViews snapshot cut
    obtain rfl := Except.ok.inj (read.symm.trans reads)
    rw [← Except.ok.inj taken]
    refine ⟨_, List.forall₂_map_left_iff.mpr (List.forall₂_same.mpr fun view member => ?_),
      sound.knownRows pieces cut⟩
    refine holds_resident ?_
    rcases List.mem_append.mp member with recent | old
    · obtain ⟨segment, inside, rfl⟩ := List.mem_map.mp recent
      exact (pieces.ok segment inside).stored
    · obtain ⟨segment, inside, rfl⟩ := List.mem_map.mp old
      exact (sound.pastOk segment inside).stored

end Store

/-! ### Aggregates -/

section Aggregates

variable [F64Math F] [LawfulRounding F] {schema : Schema} {orderingKey : Nat}
  {registry : Registry F} {plan : Plan F}
variable {keys : List GroupKey} {items : List AggItem}

/-- A plan that groups, and neither tests nor rearranges its groups. -/
structure Plan.Groups (plan : Plan F) (keys : List GroupKey) (items : List AggItem) : Prop where
  projection : plan.projection = .aggregate keys items none
  items : items ≠ []
  distinct : plan.distinct = false
  orderBy : plan.orderBy = none
  limit : plan.limit = none
  offset : plan.offset = none
  kernels : ∀ test ∈ plan.predicate, test.usesRegistered = false

omit [LawfulRounding F] in
theorem finish_projects {views : List (SegmentView F)} (groups : plan.Groups keys items)
    {output : QueryOutput F}
    (ran : finish schema registry (some orderingKey) plan views = .ok output) :
    projectAggregate schema views (some orderingKey) keys items = .ok output := by
  obtain ⟨projected, projects, ran⟩ := except_bind_ok ran
  rw [project, groups.projection] at projects
  have hidden : hiddenOrder plan = none := by rw [hiddenOrder, groups.projection]
  unfold arrange at ran
  rw [groups.distinct, groups.orderBy, groups.limit, groups.offset, hidden] at ran
  rw [← Except.ok.inj ran]
  exact projects

omit [LawfulRounding F] in
/-- What a grouping makes of views is what their live rows answer. -/
theorem finish_answers (axis : schema.Axis orderingKey) {views : List (SegmentView F)}
    (stored : ∀ view ∈ views, view.segment.Stored schema)
    (groups : plan.Groups keys items)
    (buckets : ExactBuckets orderingKey keys (views.flatMap SegmentView.liveRows))
    {output : QueryOutput F}
    (ran : finish schema registry (some orderingKey) plan views = .ok output) :
    answer schema (some orderingKey) keys items
      (views.flatMap SegmentView.liveRows) = .ok output.rows := by
  refine (projectAggregate_answers axis (fun view member => (stored view member).readable view.live)
    groups.items buckets _).mp ?_
  rw [finish_projects groups ran]
  rfl

/-- A query computes on the rows of its state that pass its `WHERE`, each by its own cells. -/
theorem Store.Sound.computes {s : Store F} {disk : Disk F} {segments past : List (Segment F)}
    (sound : s.Sound disk segments past)
    (kernels : ∀ test ∈ plan.predicate, test.usesRegistered = false) {output : QueryOutput F}
    (ran : Table.executePlan registry s disk plan = .ok output) : ∃ views,
      finish s.schema registry (some s.orderingKey) plan views = .ok output ∧
      (∀ view ∈ views, view.segment.Stored s.schema) ∧
        views.flatMap SegmentView.liveRows = keep s.schema plan.predicate
          (s.rowsAt disk plan.asOf) := by
  unfold Table.executePlan at ran
  obtain ⟨handles, taken, ran⟩ := except_bind_ok ran
  obtain ⟨all, held, rows⟩ := sound.holds (except_mapError_ok taken)
  have ran := except_mapError_ok ran
  unfold executeWithOrderingKey at ran
  split at ran
  · cases ran
  · obtain ⟨views, read_, ran⟩ := except_bind_ok ran
    obtain ⟨stored, kept⟩ := materialize_rows kernels held read_
    exact ⟨views, ran, stored, by rw [kept, rows]⟩

end Aggregates

/-! ### Along a run -/

section Reached

variable [F64Math F] {rules : Rules F} {schema : Schema} {orderingKey : Nat}
  {options : StoreOptions → Prop}
variable {permits : World F → Call F → Outcome → Prop} {s : Store F} {disk : Disk F}
  {registry : Registry F} {plan : Plan F}

/-- In every state that a run reaches, what a query knows of a segment before it reads it is true of
the segment. -/
theorem Reached.handles_hold
    (reached : Reached rules schema orderingKey options permits (.up s disk)) {asOf : Option Nat}
    {handles : List (SegmentHandle F)} (taken : Table.handlesFor s disk asOf = .ok handles) :
    ∃ views, List.Forall₂ (SegmentHandle.Holds (disk.reader s.schema) s.schema) handles views ∧
      views.flatMap SegmentView.liveRows = s.rowsAt disk asOf := by
  obtain ⟨-, -, segments, past, steady, -⟩ := reached.upheld upholds_steady
  exact steady.sound.holds taken

variable [LawfulRounding F]

/-- In every state that a run reaches, a query computes on the rows that pass its `WHERE` and on no
other. -/
theorem Reached.query_computes (reached : Reached rules schema orderingKey options permits (.up s disk))
    (kernels : ∀ test ∈ plan.predicate, test.usesRegistered = false) {output : QueryOutput F}
    (ran : Table.executePlan registry s disk plan = .ok output) : ∃ views,
      finish s.schema registry (some s.orderingKey) plan views = .ok output ∧
      (∀ view ∈ views, view.segment.Stored s.schema) ∧
        views.flatMap SegmentView.liveRows = keep s.schema plan.predicate
          (s.rowsAt disk plan.asOf) := by
  obtain ⟨-, -, segments, past, steady, -⟩ := reached.upheld upholds_steady
  exact steady.sound.computes kernels ran

/-- In every state that a run reaches, a grouping answers what the live rows, or those known at its
cut, answer. -/
theorem Reached.query_answers
    (reached : Reached rules schema orderingKey options permits (.up s disk)) {keys : List GroupKey}
    {items : List AggItem}
    (groups : plan.Groups keys items)
    (buckets : ExactBuckets s.orderingKey keys
      (keep s.schema plan.predicate (s.rowsAt disk plan.asOf))) {output : QueryOutput F}
    (ran : Table.executePlan registry s disk plan = .ok output) :
    answer s.schema (some s.orderingKey) keys items
      (keep s.schema plan.predicate (s.rowsAt disk plan.asOf)) = .ok output.rows := by
  obtain ⟨-, -, segments, past, steady, -⟩ := reached.upheld upholds_steady
  obtain ⟨views, ran, stored, kept⟩ := steady.sound.computes groups.kernels ran
  rw [← kept] at buckets ⊢
  exact finish_answers (Schema.checkOrderingKey_axis steady.sound.keyed) stored groups buckets ran

end Reached

/-- `SELECT at / 2, COUNT(*) FROM t WHERE at >= 2 GROUP BY at / 2`. -/
def paired : Plan UInt64 where
  table := "t"
  join := none
  projection := .aggregate [.bucket "at" 2 none] [.key (.bucket "at" 2 none) none,
    .call ⟨.count, none, none⟩] none
  distinct := false
  predicate := some (.compare "at" .ge (.int 2))
  orderBy := none
  limit := none
  offset := none
  asOf := none

def pairedOutput : Option ((Store UInt64 × Disk UInt64) × QueryOutput UInt64) := do
  let (s, disk) ← stocked
  let output ← (Table.executePlan noFunctions s disk paired).toOption
  return ((s, disk), output)

theorem paired_ran : ∃ (s : Store UInt64) (disk : Disk UInt64) (output : QueryOutput UInt64),
    Reached Anything tagged 0 (fun _ => True) (fun _ _ _ => True) (.up s disk) ∧
    Table.executePlan noFunctions s disk paired = .ok output := by
  obtain ⟨⟨⟨s, disk⟩, output⟩, made⟩ : ∃ made, pairedOutput = some made :=
    Option.isSome_iff_exists.mp (by decide +kernel)
  rw [pairedOutput] at made
  obtain ⟨⟨store, disk₀⟩, stored, made⟩ := Option.bind_eq_some_iff.mp made
  obtain ⟨output₀, ran, same⟩ := Option.bind_eq_some_iff.mp made
  cases same
  exact ⟨s, disk, output, stocked_reached stored, except_of_toOption ran⟩

theorem Reached.handles_hold_paired :
    ∃ (s : Store UInt64) (disk : Disk UInt64) (handles : List (SegmentHandle UInt64)) (views :
      List (SegmentView UInt64)),
    Table.handlesFor s disk none = .ok handles ∧ List.Forall₂
      (SegmentHandle.Holds (disk.reader s.schema) s.schema) handles views ∧
      views.flatMap SegmentView.liveRows = s.rowsAt disk none := by
  obtain ⟨s, disk, output, reached, ran⟩ := paired_ran
  unfold Table.executePlan at ran
  obtain ⟨handles, taken, -⟩ := except_bind_ok ran
  have taken := except_mapError_ok taken
  obtain ⟨views, held, rows⟩ := reached.handles_hold taken
  exact ⟨s, disk, handles, views, taken, held, rows⟩

theorem Reached.query_computes_paired :
    ∃ (s : Store UInt64) (disk : Disk UInt64) (output : QueryOutput UInt64) (views :
      List (SegmentView UInt64)),
    finish s.schema noFunctions (some s.orderingKey) paired views = .ok output ∧
      views.flatMap SegmentView.liveRows = keep s.schema paired.predicate (s.rowsAt disk none) := by
  obtain ⟨s, disk, output, reached, ran⟩ := paired_ran
  obtain ⟨views, finished, -, rows⟩ :=
    reached.query_computes (by decide : ∀ test ∈ paired.predicate, test.usesRegistered = false) ran
  exact ⟨s, disk, output, views, finished, rows⟩

theorem Reached.query_answers_paired :
    ∃ (s : Store UInt64) (disk : Disk UInt64) (output : QueryOutput UInt64),
    Table.executePlan noFunctions s disk paired = .ok output ∧
      answer s.schema (some s.orderingKey) [.bucket "at" 2 none]
        [.key (.bucket "at" 2 none) none, .call ⟨.count, none, none⟩]
        (keep s.schema paired.predicate (s.rowsAt disk none)) = .ok output.rows := by
  obtain ⟨s, disk, output, reached, ran⟩ := paired_ran
  have groups : paired.Groups [.bucket "at" 2 none] [.key (.bucket "at" 2 none) none,
      .call ⟨.count, none, none⟩] :=
    ⟨rfl, by simp, rfl, rfl, rfl, rfl, by decide⟩
  refine ⟨s, disk, output, ran, reached.query_answers groups ?_ ran⟩
  intro name divide multiply member
  cases List.mem_singleton.mp member
  exact ⟨by decide, by simp, fun row _ factor member => by cases member⟩

end TallyDB
