import TallyDB.StorageLite.Sure
import TallyDB.Table.Matched

/-!
# What a refused statement leaves

A statement that is refused before its first write leaves its table as it was. One that is
refused later does not: an `INSERT` keeps the rows ahead of the one it refuses.
-/

namespace TallyDB

open Crash Chronicle

variable {F : Type}

/-! ### Statements -/

namespace Table

variable [F64Math F] {name : String} {registry : Registry F} {display : F → String} {s : Store F}
  {w : World F} {disk : Disk F}
variable {allow : World F → Call F → Outcome → Prop} {segments past : List (Segment F)}

/-- A row that an `INSERT` cannot place, or whose cells the buffer refuses. -/
def RowRefused (display : F → String) (s : Store F) (order : List Nat)
    (row : List (InsertValue F)) : Prop :=
  ∀ cells, insertCells display s.schema order row = .ok cells → s.buffer.validate cells ≠ .ok ()

/-- A statement that is refused before its first write: all but an `INSERT` of a first row
that is accepted, and an `UPDATE` of rows whose corrections are. -/
def RefusedFirst (name : String) (registry : Registry F) (display : F → String) (s : Store F)
    (disk : Disk F) :
    Except QueryError (Statement F) → Prop
  | .ok (.insert plan) =>
      plan.table = name → ∀ order first rest, insertOrder s.schema plan.columns = .ok order →
      plan.rows = first :: rest → RowRefused display s order first
  | .ok (.update plan) =>
      ∀ rows victims, corrections name registry s disk plan = .ok (rows, victims) → rows ≠ [] →
      Store.validateRows s.buffer rows ≠ .ok ()
  | _ => True

/-- A flush was refused: a key column of the buffer holds no key. -/
def FlushRefused (e : EngineError) : Prop := ∃ column, e = .storage (.allNullKeyColumn column)

theorem flushRefused_of_ends {α : Type} {freezes : Prop} {e : StorageError}
    (ends : Store.Ends freezes (.error e : Except StorageError α)) :
    FlushRefused (.storage e) := by
  obtain ⟨column, rfl⟩ := ends.unfailing
  exact ⟨column, rfl⟩

/-- A row that an `INSERT` took: it is in, and only its flush can fail then. -/
structure TakesRow (display : F → String) (s : Store F) (segments past : List (Segment F))
    (order : List Nat) (row : List (InsertValue F))
    (cells : Row F) (result : Except EngineError Unit) (s' : Store F) (disk' : Disk F)
    (segments' : List (Segment F)) : Prop where
  placed : insertCells display s.schema order row = .ok cells
  valid : s.buffer.validate cells = .ok ()
  steady : s'.Steady disk' segments' past
  schema : s'.schema = s.schema
  latest : s'.latestFacts segments' = s.latestFacts segments ++ [Fact.bornAt s.watermark cells]
  mark : s'.watermark = s.watermark + 1
  fails : ∀ e, result = .error e → FlushRefused e
  ok_iff : result = .ok () ↔
    (s.segmentRows ≤ s.buffer.rows.length + 1 → s.schema.Freezes (s.buffer.rows ++ [cells]))
  buffers : result = .ok () → s.Buffers s' (s.overflow (s.buffer.rows ++ [cells]))

/-- A row is refused with nothing touched, or it is in and only its flush can fail then. -/
theorem wp_insertRow {post : Except EngineError Unit → Store F → World F → Prop} {order : List Nat}
    {row : List (InsertValue F)}
    (sure : Sure allow) (steady : s.Steady w.disk segments past)
    (refused : ∀ e, RowRefused display s order row → post (.error e) s w)
    (taken : ∀ cells result s' w' segments',
      TakesRow display s segments past order row cells result s' w'.disk segments' →
    post result s' w') :
    Fallible.wp backend allow (fun _ => True) (insertRow display order row) post s w := by
  simp only [insertRow, storage, Fallible.wp_bind, Fallible.wp_read, Fallible.wp_ofExcept,
    Fallible.wp_mapError]
  cases placed : insertCells display s.schema order row with
  | error e => exact refused e fun cells ok => by rw [placed] at ok; cases ok
  | ok cells =>
    simp only [Store.append_eq, Store.prepareAppend, Fallible.wp_bind,
      Store.wp_refuseReadOnly steady.sound.writable, Fallible.wp_read,
      Fallible.wp_ofExcept]
    cases valid : s.buffer.validate cells with
    | error e =>
      refine refused _ fun other ok accepted => ?_
      rw [placed] at ok
      rw [← Except.ok.inj ok, valid] at accepted
      cases accepted
    | ok _ =>
      have logs : Fallible.wp backend allow (fun _ => True) (Store.walAppend cells)
          (fun _ own w' => own = s ∧ LogOnly w w') s w :=
        Store.wp_walAppendOnly (fun _ _ => trivial) fun _ w' only => ⟨rfl, only⟩
      refine Fallible.wp_mono (Fallible.wp_and logs (Store.wp_walAppendSure sure cells))
        (fun result own w₁ both => ?_) fun _ _ => trivial
      obtain ⟨⟨rfl, only⟩, rfl⟩ := both
      simp only [Fallible.wp_pure]
      have steady₁ := steady.logOnly only
      have lands : Fallible.wp backend allow (fun _ => True) (Store.finishAppend cells own.rows)
        (fun _ s' w' => ∃ segments',
          s'.Steady w'.disk segments' past ∧ s'.schema = own.schema ∧
            s'.latestFacts segments' = own.latestFacts segments ++
            [Fact.bornAt own.watermark cells] ∧ s'.watermark = own.watermark + 1)
          own w₁ :=
        Store.wp_finishAppend steady₁ valid (fun _ _ _ _ _ => trivial)
            fun _ s' w' segments' settles steady' _ =>
          ⟨segments', steady', settles.kin.schema,
            settles.latest.trans (steady.sound.latest_taken valid),
            (Store.Flushes.watermark settles).trans (Store.taken_watermark valid)⟩
      refine Fallible.wp_mono
        (Fallible.wp_and lands (Store.wp_finishAppendSure sure steady₁.sound.buffers valid))
        (fun result s' w' both => ?_) fun _ _ => trivial
      obtain ⟨⟨segments', steady', schema, latest, mark⟩, ends, buffers⟩ := both
      cases result with
      | error e =>
        refine taken cells _ s' w' segments' ⟨placed, valid, steady', schema, latest, mark,
          fun other failed => ?_, ?_, fun ok => by cases ok⟩
        · rw [← Except.error.inj failed]
          exact flushRefused_of_ends ends
        · refine iff_of_false (fun ok => by cases ok) fun freezes => ?_
          obtain ⟨id, ok⟩ := ends.ok_iff.mpr freezes
          cases ok
      | ok id =>
        refine taken cells _ s' w' segments' ⟨placed, valid, steady', schema, latest, mark,
          (fun _ failed => by cases failed), ?_, fun _ => buffers id rfl⟩
        exact iff_of_true rfl (ends.ok_iff.mp ⟨id, rfl⟩)

/-- Some rows more behind the others, each born at a coordinate of its own. -/
structure Appends (s : Store F) (disk : Disk F) (landed : List (Row F)) (s' : Store F)
    (disk' : Disk F) : Prop where
  latest : s'.factsOn disk' = s.factsOn disk ++ bornInTurn s.nextSequence landed
  past : s'.pastOn disk' = s.pastOn disk
  next : s'.nextSequence = s.nextSequence + landed.length

/-- The rows ahead of the first one refused are in, each accepted, and nothing else changed. -/
def InsertsAhead (display : F → String) (s : Store F) (disk : Disk F) (order : List Nat)
    (rows : List (List (InsertValue F)))
    (s' : Store F) (disk' : Disk F) : Prop :=
  ∃ ahead refused behind landed, rows = ahead ++ refused :: behind ∧
    RowRefused display s order refused ∧
    List.Forall₂ (fun row cells => insertCells display s.schema order row = .ok cells ∧
      s.buffer.validate cells = .ok ()) ahead landed ∧
    Appends s disk landed s' disk'

/-- An `INSERT` that fails was refused for a column or a row, or failed at a flush after its first
row. -/
inductive InsertFails (display : F → String) (s : Store F) (disk : Disk F) (plan : InsertPlan F)
    (e : EngineError) (s' : Store F)
    (disk' : Disk F) : Prop
  | columns (refused : ∀ order, insertOrder s.schema plan.columns ≠ .ok order)
        (same : s'.bookOn disk' = s.bookOn disk)
  | row {order : List Nat} (ordered : insertOrder s.schema plan.columns = .ok order)
      (ahead : InsertsAhead display s disk order plan.rows s' disk')
  | flush {order : List Nat} {first : List (InsertValue F)} {rest : List (List (InsertValue F))}
      (ordered : insertOrder s.schema plan.columns = .ok order) (rows : plan.rows = first :: rest)
      (taken : ¬ RowRefused display s order first) (full : FlushRefused e)

/-- The rule for an `INSERT` where no call fails. -/
theorem wp_insert {post : Except EngineError Nat → Store F → World F → Prop} {plan : InsertPlan F}
    (sure : Sure allow)
    (steady : s.Steady w.disk segments past)
    (done : ∀ count s' w', post (.ok count) s' w')
    (fails : ∀ e s' w' segments', s'.Steady w'.disk segments' past →
      InsertFails display s w.disk plan e s' w'.disk → post (.error e) s' w') :
    Fallible.wp backend allow (fun _ => True) (insert display plan) post s w := by
  simp only [insert, Fallible.wp_bind, Fallible.wp_read, Fallible.wp_ofExcept]
  cases ordered : insertOrder s.schema plan.columns with
  | error e => exact fails _ s w segments steady (.columns (by simp [ordered]) rfl)
  | ok order =>
    -- The rows that are in, split off the statement's.
    let Landed (left : List (List (InsertValue F))) (own : Store F) (w' : World F) : Prop :=
      ∃ segments' done landed,
      plan.rows = done ++ left ∧ own.Steady w'.disk segments' past ∧ own.schema = s.schema ∧
        own.latestFacts segments' = s.latestFacts segments ++ bornInTurn s.watermark landed ∧
        own.watermark = s.watermark + landed.length ∧
        List.Forall₂ (fun row cells => insertCells display s.schema order row = .ok cells ∧
          s.buffer.validate cells = .ok ()) done landed
    simp only
    refine Fallible.wp_each Landed ⟨segments, [], [], rfl, steady, rfl,
      (List.append_nil _).symm, rfl, .nil⟩ ?_
      fun own w' _ => done _ own w'
    rintro next left own w' ⟨segments', before, cells, split, steady', schema, latest, mark, placed⟩
    have same (row : Row F) : own.buffer.validate row = s.buffer.validate row := by
      rw [WriteBuffer.validate, WriteBuffer.validate, steady'.sound.bufferSchema, schema,
        steady.sound.bufferSchema]
    refine wp_insertRow sure steady' (fun e refused => ?_)
      fun more result s'' w'' segments'' takes => ?_
    · refine fails _ own w' segments' steady'
        (.row ordered ⟨before, next, left, cells, split, fun cells placed => ?_, placed, ?_⟩)
      · rw [← same]
        exact refused cells (by rw [schema]; exact placed)
      · refine ⟨?_, ?_, mark⟩
        · rwa [Store.factsOn, Store.factsOn, steady.sound.segmentsOn, steady'.sound.segmentsOn]
        · rw [steady.sound.pastOn, steady'.sound.pastOn]
    · have place := takes.placed
      have valid := takes.valid
      rw [schema] at place
      rw [same] at valid
      cases result with
      | ok _ =>
        refine ⟨segments'', before ++ [next], cells ++ [more], by
            rw [split, List.append_assoc]
            rfl, takes.steady, takes.schema.trans schema,
          ?_, ?_, List.rel_append placed (.cons ⟨place, valid⟩ .nil)⟩
        · rw [takes.latest, latest, mark, bornInTurn_append, List.append_assoc]
          rfl
        · rw [takes.mark, mark, List.length_append, List.length_singleton, Nat.add_assoc]
      | error e =>
        refine fails _ s'' w'' segments'' takes.steady ?_
        cases placed with
        | nil =>
            exact .flush ordered split (fun refused => refused more place valid) (takes.fails e rfl)
        | cons fine _ =>
            exact .flush ordered split (fun refused => refused _ fine.1 fine.2) (takes.fails e rfl)

/-- An `INSERT` whose first row is refused leaves nothing. -/
theorem InsertFails.unseen {plan : InsertPlan F} {e : EngineError} {s' : Store F} {disk' : Disk F}
    (fails : InsertFails display s disk plan e s' disk')
    (refused : ∀ order first rest, insertOrder s.schema plan.columns = .ok order →
      plan.rows = first :: rest → RowRefused display s order first) :
    s'.bookOn disk' = s.bookOn disk := by
  cases fails with
  | columns _ same => exact same
  | flush ordered rows taken _ => exact absurd (refused _ _ _ ordered rows) taken
  | row ordered ahead =>
    obtain ⟨ahead, next, behind, landed, rows, -, placed, latest, past, mark⟩ := ahead
    cases placed with
    | nil =>
      rw [bornInTurn, List.append_nil] at latest
      unfold Store.factsOn at latest
      unfold Store.bookOn Store.book
      rw [latest, past]
      exact congrArg _ mark
    | cons fine _ => exact absurd fine.2 (refused _ _ _ ordered rows _ fine.1)

/-- What an error tells about what a statement left. Past the first write, nothing is said of an
error of a flush. -/
structure Leaves (name : String) (registry : Registry F) (display : F → String) (s : Store F)
    (disk : Disk F)
    (parsed : Except QueryError (Statement F)) (e : EngineError) (s' : Store F)
    (disk' : Disk F) : Prop where
  first : RefusedFirst name registry display s disk parsed → s.Unseen disk s' disk'
  whole : (∀ plan, parsed ≠ .ok (.insert plan)) → ¬ FlushRefused e → s.Unseen disk s' disk'
  ahead : ∀ plan order, parsed = .ok (.insert plan) → plan.table = name →
    insertOrder s.schema plan.columns = .ok order →
    ¬ FlushRefused e → InsertsAhead display s disk order plan.rows s' disk'

theorem Leaves.of_unseen {parsed : Except QueryError (Statement F)} {e : EngineError} {s' : Store F}
    {disk' : Disk F}
    (unseen : s.Unseen disk s' disk') (other : ∀ plan, parsed ≠ .ok (.insert plan)) :
    Leaves name registry display s disk parsed e s' disk' :=
  ⟨fun _ => unseen, fun _ _ => unseen, fun plan _ same => absurd same (other plan)⟩

theorem unseen_still (steady : s.Steady disk segments past) {disk' : Disk F}
    (steady' : s.Steady disk' segments past) : s.Unseen disk s disk' :=
  steady.sound.unseen steady'.sound rfl

theorem freezes_of_corrections (own : s.Buffers s s.buffer.rows) {plan : UpdatePlan F}
    {corrected : List (Row F) × List Nat}
    (found : corrections name registry s disk plan = .ok corrected) :
    s.schema.Freezes s.buffer.rows := by
  unfold corrections at found
  obtain ⟨assigned, -, found⟩ := except_bind_ok found
  obtain ⟨hits, matched, -⟩ := except_bind_ok found
  unfold matchedOn at matched
  obtain ⟨handles, taken, -⟩ := except_bind_ok matched
  cases snapshot : s.snapshot with
  | error e => rw [snapshot] at taken; cases taken
  | ok handles => exact Store.freezes_of_snapshot own snapshot

/-- The rule for a statement where no call fails. -/
theorem wp_mutate (sure : Sure allow) (steady : s.Steady w.disk segments past)
    (parsed : Except QueryError (Statement F)) :
    Fallible.wp backend allow (fun _ => True) (mutate name registry display parsed)
      (fun result s' w' => ∀ e, result = .error e →
        Leaves name registry display s w.disk parsed e s' w'.disk) s w := by
  cases parsed with
  | error e => exact fun _ _ => .of_unseen (unseen_still steady steady) fun _ other => by cases other
  | ok statement =>
    cases statement with
    | select plan =>
        exact fun _ _ => .of_unseen (unseen_still steady steady) fun _ other => by cases other
    | createTable =>
        exact fun _ _ => .of_unseen (unseen_still steady steady) fun _ other => by cases other
    | insert plan =>
      simp only [mutate, checkTable, Fallible.wp_bind]
      split
      · next other =>
        exact fun _ _ => ⟨fun _ => unseen_still steady steady, fun _ _ => unseen_still steady steady,
          fun _ _ same named => by cases same; exact absurd named other⟩
      · next named =>
        simp only [Fallible.wp_pure]
        refine wp_insert sure steady (fun _ _ _ e failed => by cases failed)
          fun e s' w' segments' steady' fails other same => ?_
        obtain rfl := Except.error.inj same
        refine ⟨fun refused => ?_, fun others => absurd rfl (others plan),
          fun other order same _ ordered unblocked => ?_⟩
        · have same := fails.unseen (refused (not_not.mp named))
          rw [steady.sound.bookOn, steady'.sound.bookOn] at same
          exact steady.sound.unseen steady'.sound same
        · cases same
          cases fails with
          | columns refused _ => exact absurd ordered (refused order)
          | row ordered' ahead => rwa [Except.ok.inj (ordered.symm.trans ordered')]
          | flush _ _ _ full => exact absurd full unblocked
    | delete plan =>
      refine wp_delete steady (fun e w' quiet _ _ => ?_)
        fun hits result s' w' segments' past' _ conduct steady' e failed => ?_
      · exact .of_unseen (unseen_still steady (quiet.2 ▸ steady)) fun _ other => by cases other
      · cases result with
        | ok count => cases failed
        | error e =>
          exact .of_unseen (steady.sound.unseen steady'.sound (conduct.refused (by simp)))
            fun _ other => by cases other
    | update plan =>
      refine wp_update steady (fun e w' quiet failed _ _ => ?_) (fun _ _ _ _ _ _ e error => by
          cases error) ?_
      · exact .of_unseen (unseen_still steady (quiet.2 ▸ steady)) fun _ other => by cases other
      · intro assigned hits w₁ quiet cells selects filled corrected
        have steady₁ : s.Steady w₁.disk segments past := quiet.2 ▸ steady
        have own := selects.own
        refine Store.wp_supersedeSure sure steady₁ ?_ (by simpa using filled)
          (by simpa using filled) ?_ ?_ ?_
        · exact freezes_of_corrections steady.sound.buffers corrected
        · exact fun id member => (own.alive id member).1
        · exact fun e _ _ _ => .of_unseen (unseen_still steady steady₁) fun _ other => by cases other
        · intro valid result s' w' ended e failed
          refine ⟨fun refused => absurd valid (refused _ _ corrected (by simpa using filled)),
            fun _ unblocked => ?_,
            fun _ _ other => by cases other⟩
          cases result with
          | ok count => cases failed
          | error cause =>
            rw [← Except.error.inj failed] at unblocked
            exact absurd (flushRefused_of_ends ended) unblocked

end Table

/-- A statement that fails without a failing call, in any state that a run reaches, leaves its
table as it was if it is refused before its first write. A refused `INSERT` keeps the rows
ahead of the first one refused. -/
theorem Reached.refuses [F64Math F] {rules : Rules F} {schema : Schema} {orderingKey : Nat}
    {options : StoreOptions → Prop}
    {permits : World F → Call F → Outcome → Prop} {s s' : Store F} {disk : Disk F} {w : World F}
    {plan rest : List Outcome} {e : EngineError}
    {name : String} {registry : Registry F} {display : F → String}
    {parsed : Except QueryError (Statement F)}
    (reached : Reached rules schema orderingKey options permits (.up s disk))
    (admitted : Program.Admits backend NoFailure (Table.mutate name registry display parsed s)
      ⟨disk, []⟩ plan)
    (ran : Program.run backend (Table.mutate name registry display parsed s) ⟨disk, []⟩ plan =
      .returned (.error e, s') w rest) :
    Table.Leaves name registry display s disk parsed e s' w.disk := by
  obtain ⟨-, -, segments, past, steady, -⟩ := reached.upheld upholds_steady
  have rule := @Table.wp_mutate F _ name registry display s
    ⟨disk, []⟩ _ _ _ sure_noFailure steady parsed
  have ends := Program.wp_sound rule admitted
  rw [ran] at ends
  exact ends e rfl

/-! ### Two inserts that fail -/

/-- An `INSERT` into three rows that fails with every call succeeding. -/
def failedInsert (rows : List (List (InsertValue UInt64))) : Option
      (Store UInt64 × Disk UInt64 × EngineError × Store UInt64 × World UInt64) := do
  let (s, disk) ← stocked
  match Program.complete backend
    .ok (Table.mutate "t" noFunctions (fun _ => "") (.ok (.insert ⟨"t", none, rows⟩)) s) ⟨disk, []⟩ with
  | ((.error e, s'), w) => some (s, disk, e, s', w)
  | _ => none

theorem failedInsert_runs {rows : List (List (InsertValue UInt64))} {s s' : Store UInt64}
    {disk : Disk UInt64} {e : EngineError}
    {w : World UInt64} (made : failedInsert rows = some (s, disk, e, s', w)) :
    Reached Anything tagged 0 (fun _ => True) (fun _ _ _ => True) (.up s disk) ∧ ∃ plan,
      Program.Admits backend NoFailure
        (Table.mutate "t" noFunctions (fun _ => "") (.ok (.insert ⟨"t", none, rows⟩)) s)
        ⟨disk, []⟩ plan ∧
      Program.run backend
        (Table.mutate "t" noFunctions (fun _ => "") (.ok (.insert ⟨"t", none, rows⟩)) s)
        ⟨disk, []⟩ plan =
        .returned (.error e, s') w [] := by
  rw [failedInsert] at made
  obtain ⟨⟨store, disk₀⟩, stored, made⟩ := Option.bind_eq_some_iff.mp made
  simp only at made
  split at made
  · next e' after w' done =>
    cases made
    obtain ⟨plan, admitted, ran⟩ := @Program.run_complete _ _ _ _ _ backend NoFailure .ok
      (Table.mutate "t" noFunctions (fun _ => "") (.ok (.insert ⟨"t", none, rows⟩)) s) ⟨disk, []⟩
        fun _ _ => .inl rfl
    rw [done] at ran
    exact ⟨stocked_reached stored, plan, admitted, ran⟩
  · cases made

/-- A second row of one value is refused, and the first is in. -/
theorem Reached.refuses_short : ∃ (s s' : Store UInt64) (disk disk' : Disk UInt64),
    Table.InsertsAhead (fun _ => "") s disk [0, 1]
      [[.number (.int 4), .string "d"], [.string "x"]] s' disk' := by
  obtain ⟨⟨s, disk, e, s', w⟩, made⟩ : ∃ result,
      failedInsert [[.number (.int 4), .string "d"], [.string "x"]] = some result :=
    Option.isSome_iff_exists.mp (by decide +kernel)
  have shown : (failedInsert [[.number (.int 4), .string "d"], [.string "x"]]).map
      (fun (s, _, e, _) => (s.schema, match e with | .query _ => true | _ => false)) =
        some (tagged, true) := by decide +kernel
  rw [made] at shown
  have facts := Option.some.inj shown
  simp only [Prod.mk.injEq] at facts
  obtain ⟨reached, plan, admitted, ran⟩ := failedInsert_runs made
  refine ⟨s, s', disk, w.disk,
    (Reached.refuses reached admitted ran).ahead ⟨"t", none, _⟩ [0, 1] rfl rfl
    (by rw [facts.1]; rfl) ?_⟩
  rintro ⟨column, rfl⟩
  cases facts.2

/-- The second row is one value short, and the first stays. -/
theorem half_inserted :
    ¬ ∀ (s s' : Store UInt64) (disk : Disk UInt64) (parsed : Except QueryError (Statement UInt64))
      (plan rest : List Outcome)
    (e : EngineError) (w : World UInt64), Reached Anything tagged 0 (fun _ => True)
    (fun _ _ _ => True) (.up s disk) →
      Program.Admits backend NoFailure (Table.mutate "t" noFunctions (fun _ => "") parsed s)
        ⟨disk, []⟩ plan →
      Program.run backend (Table.mutate "t" noFunctions (fun _ => "") parsed s) ⟨disk, []⟩ plan =
        .returned (.error e, s') w rest →
      s.Unseen disk s' w.disk := by
  intro claim
  obtain ⟨⟨s, disk, e, s', w⟩, made⟩ : ∃ result,
      failedInsert [[.number (.int 4), .string "d"], [.string "x"]] = some result :=
    Option.isSome_iff_exists.mp (by decide +kernel)
  have shown : (failedInsert [[.number (.int 4), .string "d"], [.string "x"]]).map
    (fun (s, _, _, s', _) => (s.nextSequence, s'.nextSequence)) =
    some (3, 4) := by decide +kernel
  rw [made] at shown
  have facts := Option.some.inj shown
  simp only [Prod.mk.injEq] at facts
  obtain ⟨reached, plan, admitted, ran⟩ := failedInsert_runs made
  have next := (claim s s' disk _ plan [] e w reached admitted ran).next
  rw [facts.1, facts.2] at next
  cases next

end TallyDB
