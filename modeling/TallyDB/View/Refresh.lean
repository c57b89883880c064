import TallyDB.Crash.Embed
import TallyDB.Table.Replace
import TallyDB.View.Partials
import TallyDB.View.Record

/-!
# Refreshing and reading a view

A refresh folds the touched buckets of the source anew, replaces them in the view's table,
and moves the stamp. A read joins the clean buckets of the table with the touched ones of
the source, and changes nothing.
-/

namespace TallyDB

open Crash

variable {F : Type}

/-! ### A view and its source -/

structure MaterializedView (F : Type) where
  name : String
  table : Store F
  sql : String
  source : String
  /-- The coordinate of the source below which the table is complete. -/
  stamp : Nat
  /-- The width of the hidden bucket, 0 where it is not chosen or not used. -/
  width : Nat
  /-- Whether there is a directory for the record. -/
  persistent : Bool
  readOnly : Bool

/-- A view beside its source, as a process holds them. -/
structure Maintained (F : Type) where
  source : Store F
  view : MaterializedView F

inductive ViewCall (F : Type) where
  | source (c : Call F)
  | table (c : Call F)
  /-- Publishes the record of the definition. -/
  | record (bytes : Wire.Bytes)

abbrev ViewCall.Resp : ViewCall F → Type
  | .source c => c.Resp
  | .table c => c.Resp
  | .record _ => Except IoError Unit

/-- The directories of the source and of the view, and the record. -/
structure ViewWorld (F : Type) where
  source : World F
  table : World F
  record : Option Wire.Bytes

def ViewWorld.answer (w : ViewWorld F) : (c : ViewCall F) → Outcome → ViewWorld F × c.Resp
  | .source c, outcome =>
      ({ w with source := (backend.step w.source c outcome).1 }, (backend.step w.source c outcome).2)
  | .table c, outcome =>
      ({ w with table := (backend.step w.table c outcome).1 }, (backend.step w.table c outcome).2)
  | .record bytes, .ok => ({ w with record := some bytes }, .ok ())
  | .record _, .err _ => (w, .error (.backend .write))

def viewBackend : Semantics (ViewCall F) ViewCall.Resp (ViewWorld F) Outcome := ⟨ViewWorld.answer⟩

def sourceComponent : Component (backend (F := F)) (viewBackend (F := F)) where
  call := .source
  resp _ := id
  get := ViewWorld.source
  put w source := { w with source }
  world _ _ _ := rfl
  answer _ _ _ := rfl
  get_put _ _ := rfl
  put_put _ _ _ := rfl
  put_get _ := rfl

def tableComponent : Component (backend (F := F)) (viewBackend (F := F)) where
  call := .table
  resp _ := id
  get := ViewWorld.table
  put w table := { w with table }
  world _ _ _ := rfl
  answer _ _ _ := rfl
  get_put _ _ := rfl
  put_put _ _ _ := rfl
  put_get _ := rfl

def sourceShare : Share (Store F) (Maintained F) where
  get := Maintained.source
  put s source := { s with source }

def tableShare : Share (Store F) (Maintained F) where
  get s := s.view.table
  put s table := { s with view := { s.view with table } }

abbrev ViewM (F α : Type) := Fallible (ViewCall F) ViewCall.Resp (Maintained F) EngineError α

def inSource {α : Type} (x : TableM F α) : ViewM F α := Fallible.within sourceComponent sourceShare x

def inTable {α : Type} (x : TableM F α) : ViewM F α := Fallible.within tableComponent tableShare x

def Maintained.info (s : Maintained F) (name : String) : TableInfo :=
  ⟨name, s.source.schema, s.source.orderingKey⟩

def MaterializedView.info (view : MaterializedView F) : TableInfo :=
  ⟨view.name, view.table.schema, view.table.orderingKey⟩

/-- A value that the source takes to be there. -/
def expected {α : Type} (what : String) : Option α → Except EngineError α
  | some value => .ok value
  | none => .error (.query (.unsupported what))

/-! ### A new view -/

/-- Why a view is not made. -/
inductive MakeError where
  | engine (error : EngineError)
  | reservedColumn (name : String)
  | unknownOrderingKey (name : String)
  deriving DecidableEq

def validatedOrderingIndex (schema : Schema) (orderingKey : String) : Except MakeError Nat :=
  if schema.fields.any (·.name = sequenceColumn) then .error (.reservedColumn sequenceColumn)
  else (schema.fields.findIdx? (·.name = orderingKey)).elim
    (.error (.unknownOrderingKey orderingKey)) .ok

/-- The bucket column is never null, whatever the executor infers. -/
def Field.asBucket (bucket : String) (field : Field) : Field :=
  if field.name = bucket then .new field.name field.columnType false else field

section New

variable [F64Math F] (lower : String → Except QueryError (Plan F)) (registry : Registry F)

/-- The schema of a view's table and the name of its bucket column. The width does not show in them.
-/
def validatedDefinition (sql : String) (source : TableInfo) : Except MakeError (Schema × String) := do
  let plan ← (lower sql).mapError (.engine ∘ .query)
  if plan.table ≠ source.name then .error (.engine (.wrongTable source.name plan.table))
  else do
    let derived ← (Definition.of registry lower sql source none 1).mapError .engine
    let output ← (executePlanEmpty registry source derived.1.plan).mapError .engine
    .ok (⟨output.schema.fields.map (Field.asBucket derived.1.bucketName)⟩, derived.1.bucketName)

omit [F64Math F] in
def Table.new (schema : Schema) (orderingKey : String) : Except MakeError (Store F) := do
  let index ← validatedOrderingIndex schema orderingKey
  (Store.withSegmentRows schema index defaultSegmentRows).mapError (.engine ∘ .storage)

def MaterializedView.new (name sql : String) (source : TableInfo) : Except MakeError
      (MaterializedView F) := do
  let shape ← validatedDefinition lower registry sql source
  let table ← Table.new shape.1 shape.2
  .ok {
    name, table, sql, source := source.name, stamp := 0, width := 0, persistent := false
    readOnly := false }

end New

section Programs

variable [F64Math F] (lower : String → Except QueryError (Plan F)) (registry : Registry F)
  (name : String)

/-! ### Refreshing -/

def writeDefinition : ViewM F Unit := do
  let s ← Fallible.read
  let result : Except IoError Unit ←
    Fallible.perform (ViewCall.record
      (encodeDefinition ⟨s.view.stamp, s.view.width, s.view.source, s.view.sql, none⟩))
  Fallible.ofExcept (result.mapError fun _ => .query (.unsupported s!"writing {definitionFile}"))

/-- Moves the stamp, and publishes it once the table is flushed. -/
def advanceStamp (now : Nat) : ViewM F Unit := do
  Fallible.update fun s => { s with view := { s.view with stamp := now } }
  let s ← Fallible.read
  Fallible.when s.view.persistent do
    inTable (Table.storage Store.flush)
    writeDefinition

def spanItems (orderingKey : String) : List AggItem :=
  [.call ⟨.min, some orderingKey, some "__lo"⟩, .call ⟨.max, some orderingKey, some "__hi"⟩]

def spanPlan (source : TableInfo) : Plan F where
  table := source.name
  join := none
  projection := .aggregate [] (spanItems source.orderingKeyName) none
  distinct := false
  predicate := none
  orderBy := none
  limit := none
  offset := none
  asOf := none

def spanOfRow : Row F → Option (Int64 × Int64)
  | .i64 low :: .i64 high :: _ => some (low, high)
  | _ => none

def spanOf (output : QueryOutput F) : Option (Int64 × Int64) := do
  let batch ← output.batches.head?
  if batch.numRows = 0 then none else spanOfRow (batch.row 0)

def sourceSpan : ViewM F (Option (Int64 × Int64)) := do
  let s ← Fallible.read
  let output ← inSource (Table.runPlan registry (spanPlan (s.info name)))
  return spanOf output

def targetBuckets : Int := 1024

/-- The width that cuts a span of keys into the target number of buckets. -/
def bucketWidth (low high : Int64) : Nat :=
  let span := max (high.toInt - low.toInt + 1) 1
  (max ((span + targetBuckets - 1) / targetBuckets) 1).toNat

def foldedBuckets (runs : List (Int64 × Int64)) : Nat :=
  ((runs.map fun (run : Int64 × Int64) => run.2 - run.1 + 1).foldl (· + ·) 0).toUInt64.toNat

/-- Brings the table up to a coordinate. -/
def repair (definition : Definition F) (now : Nat) : ViewM F Nat := do
  let s ← Fallible.read
  if now < s.view.stamp then do
    -- The source is not the one that was stamped, and nothing in the table can be trusted.
    let replacement ← inSource (Table.runPlan registry definition.plan)
    inTable (Table.replaceMatching unregistered none replacement)
    advanceStamp now
    return 2 ^ 64 - 1
  else if now = s.view.stamp then return 0
  else do
    let touched ← inSource (Table.touchedOrderingKeys s.view.stamp)
    match definition.touchedRuns touched with
    | none => do
      advanceStamp now
      return 0
    | some runs => do
      let restricted ← Fallible.ofExcept
        (expected "at least one touched bucket"
        (definition.restrictedTo runs (s.info name).orderingKeyName))
      let replacement ← inSource (Table.runPlan registry restricted)
      let victims ← Fallible.ofExcept
        (expected "at least one touched bucket" (definition.viewRanges runs))
      inTable (Table.replaceMatching unregistered (some victims) replacement)
      advanceStamp now
      return foldedBuckets runs

/-- Folds what the stamp does not cover, and advances it. -/
def refresh : ViewM F Nat := do
  let s ← Fallible.read
  if name ≠ s.view.source then Fallible.fail (.wrongTable s.view.source name)
  else if s.view.readOnly then
    Fallible.fail (.query (.unsupported
      ("refresh on a read-only view — repair is the maintaining process's job; this handle serves " ++
        "exact answers via the union read and never writes")))
  else do
    inSource (Table.storage Store.flush)
    let s ← Fallible.read
    let derived ← Fallible.ofExcept
      (Definition.of registry lower s.view.sql (s.info name) none s.view.width)
    if derived.2 = .direct ∨ s.view.width ≠ 0 then repair registry name derived.1 s.source.nextSequence
    else do
      let span ← sourceSpan registry name
      match span with
      | none => do
        advanceStamp s.source.nextSequence
        return 0
      | some (low, high) => do
        Fallible.update fun s => { s with view := { s.view with width := bucketWidth low high } }
        let sized ← Fallible.ofExcept
          (Definition.of registry lower s.view.sql (s.info name) none (bucketWidth low high))
        -- The width is kept before anything is folded under it.
        Fallible.when s.view.persistent writeDefinition
        repair registry name sized.1 s.source.nextSequence

/-! ### Reading -/

def isNonDecreasing (batch : RecordBatch F) (index : Nat) : Bool :=
  match batch.column index with
  | .i64 values _ => (values.zip values.tail).all fun pair => pair.1 ≤ pair.2
  | _ => false

def scratchHandle (orderingKey : Nat) (batch : RecordBatch F) : SegmentHandle F :=
  .resident
    { Segment.fromBatchUnpruned batch with orderingKey, ordered := isNonDecreasing batch orderingKey }
    none

def runOverScratch (output : Schema) (orderingKey : Nat) (batches : List (RecordBatch F))
    (userPlan : Plan F) :
    Except EngineError (QueryOutput F) :=
  (executeWithOrderingKey output
    ((batches.filter fun batch => 0 < batch.numRows).map (scratchHandle orderingKey))
    orderingKey userPlan
    unregistered noSegments).mapError .query

def overScratch (view : MaterializedView F) (clean : List (RecordBatch F)) (fresh : QueryOutput F)
    (userPlan : Plan F) :
    Except EngineError (QueryOutput F) :=
  runOverScratch view.table.schema
    (view.table.schema.fields.findIdx (·.name = view.info.orderingKeyName))
    (clean ++ fresh.batches) userPlan

def selectEverything (view : MaterializedView F) : Plan F :=
  Table.selectColumns view.name (view.table.schema.fields.map Field.name) none

/-- The touched buckets of the source and the clean ones of the table, none where nothing was
touched. -/
def cleanAndFresh (definition : Definition F) : ViewM F (Option (QueryOutput F × QueryOutput F)) := do
  let s ← Fallible.read
  let touched ← inSource (Table.touchedOrderingKeys s.view.stamp)
  match definition.touchedRuns touched with
  | none => return none
  | some runs => do
    let restricted ← Fallible.ofExcept
      (expected "at least one touched bucket"
      (definition.restrictedTo runs (s.info name).orderingKeyName))
    let fresh ← inSource (Table.runPlan registry restricted)
    let ranges ← Fallible.ofExcept (expected "at least one touched bucket" (definition.viewRanges runs))
    let clean ← inTable
      (Table.runPlan unregistered { selectEverything s.view with predicate := some (.not ranges) })
    return some (clean, fresh)

/-- Answers a plan over a view that stores its own answer. -/
def queryDirect (definition : Definition F) (userPlan : Plan F) : ViewM F (QueryOutput F) := do
  let s ← Fallible.read
  match userPlan.asOf with
  | some cut => do
    let folded ← inSource (Table.runPlan registry { definition.plan with asOf := some cut })
    Fallible.ofExcept (overScratch s.view [] folded { userPlan with asOf := none })
  | none => do
    let parts ← cleanAndFresh registry name definition
    match parts with
    | none => inTable (Table.runPlan unregistered userPlan)
    | some (clean, fresh) => Fallible.ofExcept (overScratch s.view clean.batches fresh userPlan)

/-- The clean and the live partials of a running or cumulative view. -/
def partialsUnion (definition : Definition F) : ViewM F (QueryOutput F) := do
  let s ← Fallible.read
  let parts ← cleanAndFresh registry name definition
  match parts with
  | none => inTable (Table.runPlan unregistered (selectEverything s.view))
  | some (clean, fresh) => return { clean with batches := clean.batches ++ fresh.batches }

end Programs

/-! ### A view in a directory -/

section Persistent

variable [F64Math F] (lower : String → Except QueryError (Plan F)) (registry : Registry F)

/-- The schema of a new view's table, and where its ordering key is. -/
def MaterializedView.layout (sql : String) (source : TableInfo) : Except MakeError (Schema × Nat) := do
  let shape ← validatedDefinition lower registry sql source
  let index ← validatedOrderingIndex shape.1 shape.2
  .ok (shape.1, index)

/-- A view in a directory of its own, with nothing folded. The record is written once the table is
there. -/
def MaterializedView.newPersistent (name sql : String) (source : TableInfo) (s : Store F) :
    Program (ViewCall F) ViewCall.Resp (Except MakeError (Maintained F)) :=
  match MaterializedView.layout lower registry sql source with
  | .error e => .done (.error e)
  | .ok layout => do
    let opened ← Program.within tableComponent
      (Store.persistentWith layout.1 layout.2 ⟨some defaultSegmentRows, none, .group⟩)
    match opened with
    | .error e => return .error (.engine (.storage e))
    | .ok table => do
      let written ← writeDefinition
        (⟨s, ⟨name, table, sql, source.name, 0, 0, true, false⟩⟩ : Maintained F)
      return (written.1.mapError MakeError.engine).map fun _ => written.2

end Persistent

end TallyDB
