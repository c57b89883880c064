import TallyDB.StorageLite.Runs
import TallyDB.StorageLite.Steady

/-!
# What an operation can do

An operation prepares, which changes nothing a reader sees, and then finishes. Whatever
fails, it leaves a steady store, and one of a few things has happened to its rows.
-/

namespace TallyDB

open Crash

variable {F : Type} [F64 F] {allow : World F → Call F → Outcome → Prop} {crash : World F → Prop}
variable {s : Store F} {w : World F} {segments past : List (Segment F)}

namespace Store

/-- An operation that finds nothing to do. -/
def Idle (s : Store F) : Op F → Prop
  | .append _ => False
  | .tombstone ids => s.newlyDead ids = []
  | .supersede rows victims => rows = [] ∧ s.newlyDead victims = []
  | .flush => True
  | .compact => False

/-- What an operation makes of a store and how it answers, whatever fails on the way. -/
inductive Conduct (s : Store F) (segments past : List (Segment F)) : Op F →
    Except StorageError Nat → Store F →
    List (Segment F) → List (Segment F) → Prop where
  | still (op : Op F) (result : Except StorageError Nat) (s' : Store F) (segments' : List (Segment F))
      (settles : s.Settles segments s' segments') (answer : (∃ e, result = .error e) ∨ s.Idle op ∧
        result = .ok 0) :
      Conduct s segments past op result s' segments' past
  | append (row : Row F) (valid : s.buffer.validate row = .ok ())
      (result : Except StorageError Nat) (s' : Store F)
      (segments' : List (Segment F)) (settles : (s.taken row valid).Settles segments s' segments')
      (answer : (∃ e, result = .error e) ∨ result = .ok s.rows) :
      Conduct s segments past (.append row) result s' segments' past
  | tombstone (ids : List Nat) (first : Store F) (segments' : List (Segment F))
      (newly : s.newlyDead ids ≠ [])
      (settles : s.Settles segments first segments') (mortal : first.Mortal (s.newlyDead ids)) :
      Conduct s segments past (.tombstone ids) (.ok (s.newlyDead ids).length)
        ((first.killing (s.newlyDead ids) s.watermark).consumeSequence first.rows) segments' past
  | partial_ (done rest : List (Row F)) (victims : List Nat) (e : StorageError)
      (first taken s' : Store F)
      (segments₁ segments' : List (Segment F)) (settles : s.Settles segments first segments₁)
      (takes : first.Replays [.supersession s.watermark done] taken)
        (after : taken.Settles segments₁ s' segments') :
      Conduct s segments past (.supersede (done ++ rest) victims) (.error e) s' segments' past
  | supersede (rows : List (Row F)) (victims : List Nat) (result : Except StorageError Nat)
      (first taken committed s' : Store F) (segments₁ segments₂ segments' : List (Segment F))
      (busy : ¬ s.Idle (.supersede rows victims)) (settles : s.Settles segments first segments₁)
      (takes : first.Replays [.supersession s.watermark rows] taken)
        (after : taken.Settles segments₁ committed segments₂)
      (inside : ∀ id ∈ s.newlyDead victims, id < s.rows)
        (mortal : committed.Mortal (s.newlyDead victims))
      (finally_ : (committed.killing (s.newlyDead victims) s.watermark).Settles segments₂ s' segments')
      (answer : (∃ e, result = .error e) ∨ result = .ok (s.newlyDead victims).length) :
      Conduct s segments past (.supersede rows victims) result s' segments' past
  | compact (all : List (Segment F)) (merged : Merged F) (writer : Option Nat)
      (result : Except StorageError Nat)
      (pieces : Pieces s segments all) (merges : MergeOf s all merged)
        (logs : writer.isSome = s.wal.isSome)
      (answer : (∃ e, result = .error e) ∨ result = .ok 0) :
      Conduct s segments past .compact result { s.compacted merged with wal := writer } merged.segments
        (past ++ merged.history)

/-! ### Two halves -/

def prepareAppend (row : Row F) : StoreM F Nat := do
  refuseReadOnly
  let store ← Fallible.read
  Fallible.ofExcept (store.buffer.validate row)
  walAppend row
  return store.rows

def finishAppend (row : Row F) (id : Nat) : StoreM F Nat := do
  takeRow row
  flushIfFull
  return id

theorem append_eq (row : Row F) : append row = prepareAppend row >>= finishAppend row := by
  simp only [append, prepareAppend, finishAppend, bind_assoc, pure_bind]

/-- A supersession up to the point where its first row is logged or, without rows, where its
delete log is written. It yields the victims and the coordinate, if there is anything to do. -/
def prepareSupersede (replacements : List (Row F)) (victims : List Nat) : StoreM F
      (Option (List Nat × Nat)) := do
  refuseReadOnly
  let store ← Fallible.read
  if victims.isEmpty then
    Fallible.fail (.misuse
      "supersede needs at least one victim row (a supersession with nothing to supersede is an append — use append)")
  else do
    Fallible.ofExcept (validateRows store.buffer replacements)
    match victims.find? fun id => store.rows ≤ id with
    | some bad => Fallible.fail (.tombstoneOutOfRange bad)
    | none =>
      let newly := store.newlyDead victims
      if newly.isEmpty && replacements.isEmpty then pure none
      else do
        Fallible.when (store.persistent && newly.any (store.bufferBase ≤ ·)) flush
        let store ← Fallible.read
        let sequence := store.watermark
        openBracket sequence replacements.length
        match replacements with
        | row :: _ => walAppend row
        | [] => do
          settleReplacements
          commitKills newly sequence sequence
        return some (newly, sequence)

def finishSupersede (replacements : List (Row F)) : Option (List Nat × Nat) → StoreM F Nat
  | none => pure 0
  | some (newly, sequence) => do
    match replacements with
    | row :: rest => do
      takeRowAt sequence row
      Fallible.each (supersedeRow sequence) rest
      settleReplacements
      commitKills newly sequence sequence
    | [] => pure ()
    Fallible.update fun store => store.bury newly sequence
    flushIfFull
    return newly.length

theorem supersede_eq (replacements : List (Row F)) (victims : List Nat) :
    supersede replacements victims = prepareSupersede replacements victims >>=
      finishSupersede replacements := by
  unfold supersede prepareSupersede
  simp only [bind_assoc]
  refine congrArg (refuseReadOnly >>= ·)
    (funext fun _ => congrArg (Fallible.read >>= ·) (funext fun store => ?_))
  split
  · rfl
  · simp only [bind_assoc]
    refine congrArg (Fallible.ofExcept _ >>= ·) (funext fun _ => ?_)
    cases victims.find? fun id => decide (store.rows ≤ id) with
    | some bad => rfl
    | none =>
      simp only
      split
      · rfl
      · simp only [bind_assoc]
        cases replacements with
        | nil => simp only [finishSupersede, Fallible.each, pure_bind, bind_assoc]
        | cons row rest =>
            simp only [finishSupersede, Fallible.each, supersedeRow, pure_bind, bind_assoc]

/-- A compaction up to its commit. It yields the store as it was and what it merged. -/
def prepareCompact : StoreM F (Store F × Merged F) := do
  refuseReadOnly
  let store ← Fallible.read
  let handles ← Fallible.ofExcept store.snapshot
  let views ← Fallible.collect (SegmentHandle.view store.schema) handles
  let merged ← Fallible.ofExcept (store.merge views)
  Fallible.when store.persistent (publishMerged merged)
  return (store, merged)

def finishCompact (prepared : Store F × Merged F) : StoreM F Unit := do
  Fallible.update fun store => store.adopted (prepared.1.mergedSections prepared.2) prepared.2
  resetWal
  Fallible.when prepared.1.persistent sweep

theorem compact_eq : (compact : StoreM F Unit) = prepareCompact >>= finishCompact := by
  simp only [compact, prepareCompact, finishCompact, bind_assoc, pure_bind]

/-! ### The rules -/

section Rules

variable {s' : Store F} {segments' : List (Segment F)} {row : Row F}

theorem Settles.frame (settles : s.Settles segments s' segments') :
    ∃ sections segments buffer bufferBase knowledge wal,
    s' = { s with sections, segments, buffer, bufferBase, knowledge, wal } :=
  let ⟨sections, segments, buffer, bufferBase, knowledge, wal, same, _⟩ := Flushes.frame settles
  ⟨sections, segments, buffer, bufferBase, knowledge, wal, same⟩

theorem Settles.inside {ids : List Nat} (settles : s.Settles segments s' segments')
    (mortal : s'.Mortal ids) :
    ∀ id ∈ ids, id < s.rows := by
  obtain ⟨sections, slots, buffer, bufferBase, knowledge, wal, frame⟩ := settles.frame
  intro id member
  have below := mortal.inside id member
  rwa [frame] at below

theorem wp_flushIfFullSteady {post : Except StorageError Unit → Store F → World F → Prop}
    (steady : s.Steady w.disk segments past)
    (safe : ∀ s' w' segments', s.Settles segments s' segments' →
      s'.Steady w'.disk segments' past → crash w')
    (ends : ∀ result s' w' segments', s.Settles segments s' segments' →
      s'.Steady w'.disk segments' past → post result s' w') :
    Fallible.wp backend allow crash flushIfFull post s w := by
  simp only [flushIfFull, Fallible.wp_bind, Fallible.wp_read, Fallible.wp_when]
  refine ⟨fun _ => wp_flushSteady steady safe fun result s' w' segments' settles steady' _ =>
    ?_, fun _ => ?_⟩
  · exact ends result s' w' segments' settles steady'
  · exact ends _ s w segments .kept steady

theorem Steady.logOnly {w' : World F} (steady : s.Steady w.disk segments past) (only : LogOnly w w') :
    s.Steady w'.disk segments past := steady.others only.2

section Append

variable {post : Except StorageError Nat → Store F → World F → Prop}

theorem wp_prepareAppend (steady : s.Steady w.disk segments past)
    (safe : ∀ w', s.Steady w'.disk segments past → crash w')
    (refused : ∀ e w', s.Steady w'.disk segments past → post (.error e) s w')
    (ready : ∀ w', s.buffer.validate row = .ok () → s.Steady w'.disk segments past →
      post (.ok s.rows) s w') :
    Fallible.wp backend allow crash (prepareAppend row) post s w := by
  simp only [prepareAppend, Fallible.wp_bind, wp_refuseReadOnly steady.sound.writable,
    Fallible.wp_read, Fallible.wp_ofExcept]
  cases valid : s.buffer.validate row with
  | error e => exact refused e w steady
  | ok _ =>
    refine wp_walAppendOnly (fun w' only => safe w' (steady.logOnly only)) fun result w' only => ?_
    cases result with
    | error e => exact refused e w' (steady.logOnly only)
    | ok _ => exact ready w' valid (steady.logOnly only)

theorem wp_finishAppend {id : Nat} (steady : s.Steady w.disk segments past)
    (valid : s.buffer.validate row = .ok ())
    (safe : ∀ s' w' segments', (s.taken row valid).Settles segments s' segments' →
      s'.Steady w'.disk segments' past → crash w')
    (ends : ∀ result s' w' segments', (s.taken row valid).Settles segments s' segments' →
      s'.Steady w'.disk segments' past →
      (∃ e, result = .error e) ∨ result = .ok id → post result s' w') :
    Fallible.wp backend allow crash (finishAppend row id) post s w := by
  have taken := steady.replays (.ordinary steady.sound.axis valid)
  simp only [finishAppend, Fallible.wp_bind]
  refine (wp_takeRow valid).mpr
    (wp_flushIfFullSteady taken safe fun result s' w' segments' settles steady' => ?_)
  cases result with
  | error e => exact ends _ s' w' segments' settles steady' (.inl ⟨e, rfl⟩)
  | ok _ => exact ends _ s' w' segments' settles steady' (.inr rfl)

end Append

section Kill

variable {post : Except StorageError Nat → Store F → World F → Prop} {ids : List Nat}

/-- The rows that still live, once the buffered ones among them are flushed. -/
theorem Settles.mortal {disk : Disk F} (settles : s.Settles segments s' segments')
    (sound : s'.Sound disk segments' past)
    (inside : ∀ id ∈ ids, id < s.rows)
    (durable : s.persistent = true → s'.buffer.rows = [] ∨ s' = s ∧ ∀ id ∈ s.newlyDead ids,
      id < s.bufferBase) :
    s'.Mortal (s.newlyDead ids) := by
  obtain ⟨sections, slots, buffer, bufferBase, knowledge, wal, frame⟩ := settles.frame
  have rows : s'.rows = s.rows := by rw [frame]
  have tombstones : s'.tombstones = s.tombstones := by rw [frame]
  have persistent : s'.persistent = s.persistent := by rw [frame]
  refine ⟨fun id member => ?_, fun id member => ?_, fun stored id member => ?_,
    newlyDead_ascending ids⟩
  · have alive := (mem_newlyDead.mp member).2
    unfold isKilled killedAt at alive ⊢
    rwa [tombstones]
  · exact rows ▸ inside id (mem_newlyDead.mp member).1
  · rcases durable (persistent ▸ stored) with empty | ⟨rfl, below⟩
    · rw [sound.durable empty, rows]
      exact inside id (mem_newlyDead.mp member).1
    · exact below id member

theorem wp_tombstoneSteady (steady : s.Steady w.disk segments past)
    (safe : ∀ result s' w' segments',
      s.Conduct segments past (.tombstone ids) result s' segments' past →
      s'.Steady w'.disk segments' past → crash w')
    (ends : ∀ result s' w' segments',
      s.Conduct segments past (.tombstone ids) result s' segments' past →
      s'.Steady w'.disk segments' past → post result s' w') :
    Fallible.wp backend allow crash (tombstone ids) post s w := by
  have refuse (e : StorageError) (s' : Store F) (w' : World F) (segments' : List (Segment F))
      (settles : s.Settles segments s' segments') (steady' : s'.Steady w'.disk segments' past) :
        post (.error e) s' w' :=
    ends _ s' w' segments' (.still _ _ s' segments' settles (.inl ⟨e, rfl⟩)) steady'
  have stop (s' : Store F) (w' : World F) (segments' : List (Segment F))
    (settles : s.Settles segments s' segments')
      (steady' : s'.Steady w'.disk segments' past) : crash w' :=
    safe (.error (.tombstoneOutOfRange 0)) s' w' segments'
      (.still _ _ s' segments' settles (.inl ⟨_, rfl⟩)) steady'
  simp only [tombstone, Fallible.wp_bind, wp_refuseReadOnly steady.sound.writable, Fallible.wp_read]
  cases range : ids.find? fun id => decide (s.rows ≤ id) with
  | some bad => exact refuse _ s w segments .kept steady
  | none =>
    have inside : ∀ id ∈ ids, id < s.rows := by simpa using range
    simp only
    split
    · next none =>
      exact ends _ s w segments
        (.still _ _ s segments .kept (.inr ⟨List.isEmpty_iff.mp none, rfl⟩)) steady
    · next some =>
      have newly : s.newlyDead ids ≠ [] := by simpa using some
      have kill (first : Store F) (w₁ : World F) (segments₁ : List (Segment F))
        (settles : s.Settles segments first segments₁)
          (steady₁ : first.Steady w₁.disk segments₁ past) (empty : s.persistent = true →
            first.buffer.rows = []) :
          Fallible.wp backend allow crash (do
            let store ← Fallible.read
            let stamp := store.watermark
            commitKills (s.newlyDead ids) stamp 0
            Fallible.update fun store => (store.bury (s.newlyDead ids) stamp).consumeSequence store.rows
            return (s.newlyDead ids).length) post first w₁ := by
        have mortal := settles.mortal steady₁.sound inside fun stored => .inl (empty stored)
        simp only [Fallible.wp_bind, Fallible.wp_read, Fallible.wp_update]
        refine wp_commitKills (stop first w₁ segments₁ settles steady₁) ?_ ?_
        · exact fun w₂ _ disk _ _ => refuse _ first w₂ segments₁ settles (disk ▸ steady₁)
        · intro w₂ wrote
          have after := (steady₁.killing mortal wrote).consume
          have conduct := @Conduct.tombstone F _ s segments past ids first segments₁
            newly settles mortal
          rw [← Flushes.watermark settles] at conduct
          exact ends _ _ w₂ segments₁ conduct after
      simp only [Fallible.wp_bind, Fallible.wp_when]
      refine ⟨fun stored =>
        wp_flushSteady steady stop fun result first w₁ segments₁ settles steady₁ empty => ?_,
        fun memory => ?_⟩
      · cases result with
        | error e => exact refuse e first w₁ segments₁ settles steady₁
        | ok _ =>
            simpa only [Fallible.wp_bind] using kill first w₁ segments₁ settles steady₁
              fun _ => empty rfl
      · have rest := kill s w segments .kept steady fun stored => by
          rw [memory] at stored
          cases stored
        simpa only [Fallible.wp_bind] using rest

end Kill

section Supersede

variable {rows : List (Row F)} {victims ids : List Nat} {disk : Disk F}

omit [F64 F] in
theorem Mortal.replays {units : List (Replayed F)} (mortal : s.Mortal ids) (axis : s.AxisOk)
    (replays : s.Replays units s') :
    s'.Mortal ids := by
  have grown : s.rows ≤ s'.rows := by
    have before := axis.counted
    have after := replays.axis.counted
    have more := congrArg List.length replays.rows
    obtain ⟨buffer, knowledge, count, same⟩ := replays.frame
    have base : s'.bufferBase = s.bufferBase := by rw [same]
    rw [List.length_append] at more
    simp only [WriteBuffer.len] at before after
    omega
  obtain ⟨buffer, knowledge, count, same⟩ := replays.frame
  subst same
  exact ⟨mortal.alive, fun id member => Nat.lt_of_lt_of_le (mortal.inside id member) grown,
    mortal.durable, mortal.ascending⟩

theorem Mortal.settles (mortal : s.Mortal ids) (settles : s.Settles segments s' segments') :
    s'.Mortal ids := by
  cases settles with
  | kept => exact mortal
  | moved segment sections writer flushed' frozen filled next logs old =>
    exact ⟨mortal.alive, mortal.inside, fun stored id member => mortal.inside id member,
      mortal.ascending⟩

theorem wp_settleReplacements {post : Except StorageError Unit → Store F → World F → Prop}
    (steady : s.Steady w.disk segments past)
    (safe : ∀ s' w' segments', s.Settles segments s' segments' →
      s'.Steady w'.disk segments' past → crash w')
    (ends : ∀ result s' w' segments', s.Settles segments s' segments' →
      s'.Steady w'.disk segments' past → post result s' w') :
    Fallible.wp backend allow crash settleReplacements post s w := by
  simp only [settleReplacements, Fallible.wp_bind, Fallible.wp_read, Fallible.wp_when]
  refine ⟨fun _ => ?_, fun _ => ends _ s w segments .kept steady⟩
  cases s.wal with
  | some writer =>
    exact wp_syncOnly (safe s w segments .kept steady) fun result w' only =>
      ends result s w' segments .kept (steady.logOnly only)
  | none =>
    simp only [Fallible.wp_when]
    refine ⟨fun _ => wp_flushSteady steady safe fun result s' w' segments' settles steady' _ =>
      ?_, fun _ => ?_⟩
    · exact ends result s' w' segments' settles steady'
    · exact ends _ s w segments .kept steady

theorem wp_prepareSupersede
    {post : Except StorageError (Option (List Nat × Nat)) → Store F → World F → Prop}
    (steady : s.Steady w.disk segments past)
    (safe : ∀ s' w' segments', s.Settles segments s' segments' →
      s'.Steady w'.disk segments' past → crash w')
    (refused : ∀ e s' w' segments', s.Settles segments s' segments' →
      s'.Steady w'.disk segments' past → post (.error e) s' w')
    (idle : s.Idle (.supersede rows victims) → post (.ok none) s w)
    (ready : ∀ first w' segments', rows ≠ [] → (∀ row ∈ rows, s.schema.validate row = .ok ()) →
      s.Settles segments first segments' → first.Mortal (s.newlyDead victims) →
      first.Steady w'.disk segments' past →
      post (.ok (some (s.newlyDead victims, s.watermark))) first w')
    (killed : ∀ first w' segments', rows = [] → s.newlyDead victims ≠ [] →
      s.Settles segments first segments' →
      first.Mortal (s.newlyDead victims) →
      (first.killing (s.newlyDead victims) s.watermark).Steady w'.disk segments' past →
      post (.ok (some (s.newlyDead victims, s.watermark))) { first with deleteLogSequence :=
        if first.persistent then first.deleteLogSequence + 1 else first.deleteLogSequence } w') :
    Fallible.wp backend allow crash (prepareSupersede rows victims) post s w := by
  -- The bracket and what follows it, once the buffered victims are flushed.
  have core (first : Store F) (w₁ : World F) (segments₁ : List (Segment F))
    (busy : ¬ s.Idle (.supersede rows victims))
      (valid : ∀ row ∈ rows, s.schema.validate row = .ok ())
        (settles : s.Settles segments first segments₁)
      (mortal : first.Mortal (s.newlyDead victims)) (steady₁ : first.Steady w₁.disk segments₁ past) :
      Fallible.wp backend allow crash (do
        let store ← Fallible.read
        let sequence := store.watermark
        openBracket sequence rows.length
        match rows with
        | row :: _ => walAppend row
        | [] => do
          settleReplacements
          commitKills (s.newlyDead victims) sequence sequence
        return some (s.newlyDead victims, sequence)) post first w₁ := by
    have mark := Flushes.watermark settles
    simp only [Fallible.wp_bind, Fallible.wp_read]
    refine wp_openBracketOnly (safe first w₁ segments₁ settles steady₁) fun result w₂ only => ?_
    have steady₂ := steady₁.logOnly only
    cases result with
    | error e => exact refused e first w₂ segments₁ settles steady₂
    | ok _ =>
      cases rows with
      | cons row rest =>
        simp only [Fallible.wp_bind]
        refine wp_walAppendOnly
          (fun w₃ only => safe first w₃ segments₁ settles (steady₂.logOnly only))
          fun result w₃ only => ?_
        cases result with
        | error e => exact refused e first w₃ segments₁ settles (steady₂.logOnly only)
        | ok _ =>
          rw [mark]
          exact ready first w₃ segments₁ (by simp) valid settles mortal (steady₂.logOnly only)
      | nil =>
        have newly : s.newlyDead victims ≠ [] := fun none => busy ⟨rfl, none⟩
        simp only [Fallible.wp_bind]
        refine wp_settleReplacements steady₂
          (fun s' w' segments' after => safe s' w' segments' (settles.trans after)) ?_
        intro result second w₃ segments₂ after steady₃
        cases result with
        | error e => exact refused e second w₃ segments₂ (settles.trans after) steady₃
        | ok _ =>
          have mortal' := mortal.settles after
          refine wp_commitKills (safe second w₃ segments₂ (settles.trans after) steady₃) ?_ ?_
          · exact fun w₄ _ disk _ _ => refused _ second w₄ segments₂ (settles.trans after)
              (disk ▸ steady₃)
          · intro w₄ wrote
            rw [mark] at wrote ⊢
            exact killed second w₄ segments₂ rfl newly (settles.trans after) mortal'
              (steady₃.killing mortal' wrote)
  simp only [prepareSupersede, Fallible.wp_bind, wp_refuseReadOnly steady.sound.writable,
    Fallible.wp_read]
  split
  · exact refused _ s w segments .kept steady
  · simp only [Fallible.wp_bind, Fallible.wp_ofExcept]
    cases checked : validateRows s.buffer rows with
    | error e => exact refused e s w segments .kept steady
    | ok _ =>
      have valid : ∀ row ∈ rows, s.schema.validate row = .ok () := by
        intro row member
        have ok := validateRows_ok checked row member
        unfold WriteBuffer.validate at ok
        rwa [steady.sound.bufferSchema] at ok
      simp only
      cases range : victims.find? fun id => decide (s.rows ≤ id) with
      | some bad => exact refused _ s w segments .kept steady
      | none =>
        have inside : ∀ id ∈ victims, id < s.rows := by simpa using range
        simp only
        split
        · next nothing =>
          obtain ⟨none, bare⟩ : s.newlyDead victims = [] ∧ rows = [] := by simpa using nothing
          exact idle ⟨bare, none⟩
        · next something =>
          have busy : ¬ s.Idle (.supersede rows victims) :=
            fun idle => something (by simp [idle.1, idle.2])
          simp only [Fallible.wp_bind, Fallible.wp_when]
          refine ⟨fun buffered =>
            wp_flushSteady steady safe fun result first w₁ segments₁ settles steady₁ empty => ?_,
            fun settled_ => ?_⟩
          · cases result with
            | error e => exact refused e first w₁ segments₁ settles steady₁
            | ok _ =>
              have mortal := settles.mortal steady₁.sound inside fun _ => .inl (empty rfl)
              simpa only [Fallible.wp_bind] using core first w₁ segments₁ busy valid
                settles mortal steady₁
          · have mortal := Settles.mortal .kept steady.sound inside fun stored =>
              .inr ⟨rfl, by simpa [stored] using settled_⟩
            simpa only [Fallible.wp_bind] using core s w segments busy valid .kept mortal steady

theorem wp_bury {post : Except StorageError Nat → Store F → World F → Prop} {committed : Store F}
    {sequence : Nat}
    (steady : (committed.killing ids sequence).Steady w.disk segments past)
    (safe : ∀ s' w' segments', (committed.killing ids sequence).Settles segments s' segments' →
      s'.Steady w'.disk segments' past → crash w')
    (ends : ∀ result s' w' segments', (committed.killing ids sequence).Settles segments s' segments' →
      s'.Steady w'.disk segments' past → (∃ e, result = .error e) ∨ result = .ok ids.length →
      post result s' w') :
    Fallible.wp backend allow crash (do
      Fallible.update fun store => store.bury ids sequence
      flushIfFull
      return ids.length) post { committed with deleteLogSequence :=
        if committed.persistent then committed.deleteLogSequence +
          1 else committed.deleteLogSequence } w := by
  simp only [Fallible.wp_bind, Fallible.wp_update]
  refine wp_flushIfFullSteady steady safe fun result s' w' segments' settles steady' => ?_
  cases result with
  | error e => exact ends _ s' w' segments' settles steady' (.inl ⟨e, rfl⟩)
  | ok _ => exact ends _ s' w' segments' settles steady' (.inr rfl)

/-- The rows of a supersession and its delete log, from its first row on. -/
theorem wp_finishRows {post : Except StorageError Nat → Store F → World F → Prop} {row : Row F}
    {rest : List (Row F)}
    {sequence : Nat} (steady : s.Steady w.disk segments past) (mortal : s.Mortal ids)
    (valid : ∀ cells ∈ row :: rest, s.schema.validate cells = .ok ())
    (stopped : ∀ done left taken s' w' segments', done ++ left = row :: rest →
      s.Replays [.supersession sequence done] taken →
      taken.Settles segments s' segments' → s'.Steady w'.disk segments' past → crash w')
    (safe : ∀ taken committed s' w' segments₁ segments',
      s.Replays [.supersession sequence (row :: rest)] taken →
      taken.Settles segments committed segments₁ → committed.Mortal ids →
      (committed.killing ids sequence).Settles segments₁ s' segments' →
      s'.Steady w'.disk segments' past → crash w')
    (failed : ∀ e done left taken s' w' segments', done ++ left = row :: rest →
      s.Replays [.supersession sequence done] taken →
      done ≠ [] → taken.Settles segments s' segments' → s'.Steady w'.disk segments' past →
      post (.error e) s' w')
    (ends : ∀ result taken committed s' w' segments₁ segments',
      s.Replays [.supersession sequence (row :: rest)] taken →
      taken.Settles segments committed segments₁ → committed.Mortal ids →
      (committed.killing ids sequence).Settles segments₁ s' segments' →
      s'.Steady w'.disk segments' past →
      (∃ e, result = .error e) ∨ result = .ok ids.length → post result s' w') :
    Fallible.wp backend allow crash
      (finishSupersede (row :: rest) (some (ids, sequence))) post s w := by
  have accepts {taken : Store F} {done : List (Row F)}
    (replays : s.Replays [.supersession sequence done] taken)
      (cells : Row F) (member : cells ∈ row :: rest) : taken.buffer.validate cells = .ok () := by
    have ok := valid cells member
    unfold WriteBuffer.validate
    rwa [replays.bufferSchema, steady.sound.bufferSchema]
  have first := accepts (.bare steady.sound.axis) row List.mem_cons_self
  have one : s.Replays [.supersession sequence [row]] (s.takenAt row sequence first) :=
    .supersession (.bare steady.sound.axis) first
  simp only [finishSupersede, Fallible.wp_bind]
  refine (wp_takeRowAt first).mpr
    (Fallible.wp_each (fun left taken w' => ∃ done, done ++ left = row :: rest ∧ done ≠ [] ∧
    s.Replays [.supersession sequence done] taken ∧ taken.Steady w'.disk segments past)
    ⟨[row], rfl, by simp, one, steady.replays one⟩ ?_ ?_)
  · rintro cells left taken w₁ ⟨done, split, filled, replays, steady₁⟩
    have ok := accepts replays cells (by rw [← split]; simp)
    simp only [supersedeRow, Fallible.wp_bind]
    refine wp_walAppendOnly
      (fun w₂ only => stopped done _ taken taken w₂ segments split replays .kept
      (steady₁.logOnly only)) ?_
    intro result w₂ only
    cases result with
    | error e =>
        exact failed e done _ taken taken w₂ segments split replays filled .kept (steady₁.logOnly only)
    | ok _ =>
      have next : taken.Replays [.supersession sequence [cells]] (taken.takenAt cells sequence ok) :=
        .supersession (.bare replays.axis) ok
      exact (wp_takeRowAt ok).mpr ⟨done ++ [cells], by simp [split], by simp, .supersession replays ok,
        (steady₁.logOnly only).replays next⟩
  · rintro taken w₁ ⟨done, split, -, replays, steady₁⟩
    rw [List.append_nil] at split
    subst split
    have mortal₁ := mortal.replays steady.sound.axis replays
    simp only
    refine wp_settleReplacements steady₁ ?_ ?_
    · exact fun s' w' segments' settles => stopped _ [] taken s' w' segments'
        (List.append_nil _) replays settles
    · intro result committed w₂ segments₁ settles steady₂
      cases result with
      | error e =>
          exact failed e _ [] taken committed w₂ segments₁ (List.append_nil _) replays
            (by simp) settles steady₂
      | ok _ =>
        have mortal₂ := mortal₁.settles settles
        refine wp_commitKills
          (stopped _ [] taken committed w₂ segments₁ (List.append_nil _) replays settles steady₂) ?_ ?_
        · exact fun w₃ _ disk _ _ => failed _ _ [] taken committed w₃ segments₁
            (List.append_nil _) replays (by simp) settles
            (disk ▸ steady₂)
        · intro w₃ wrote
          have buried := @wp_bury F _ allow crash _ _ _ _ _ _ _ (steady₂.killing mortal₂ wrote)
            (fun s' w' segments' => safe taken committed s' w' segments₁ segments' replays
              settles mortal₂)
            (fun result s' w' segments' => ends result taken committed s' w' segments₁ segments'
              replays settles mortal₂)
          simpa only [Fallible.wp_bind] using buried

end Supersede

section Compact

variable {post : Except StorageError Unit → Store F → World F → Prop} {all : List (Segment F)}
  {merged : Merged F}

theorem Steady.compacted {w' : World F} (steady : s.Steady w.disk segments past)
    (pieces : Pieces s segments all)
    (merges : MergeOf s all merged) (published : s.persistent = true → s.Published merged past w w') :
    (s.compacted merged).Steady w'.disk merged.segments (past ++ merged.history) where
  sound := steady.sound.compacted pieces merges published
  filed stored := by
    have laid := steady.sound.laidCompacted pieces merges stored
      (steady.filed stored).layout.historyFiles (published stored)
    refine ⟨laid.layout, laid.killed, fun bare base object held => ?_⟩
    obtain ⟨first, segment, same, ok, start, -⟩ := laid.leftover bare base object held
    exact ⟨first, segment, same, ok, start⟩

/-- A compaction fails before its commit and leaves the same store, or it is past it. -/
theorem wp_prepareCompact
    {post : Except StorageError (Store F × Merged F) → Store F → World F → Prop}
    (steady : s.Steady w.disk segments past)
    (safe : ∀ w', s.Steady w'.disk segments past → crash w')
    (unchanged : ∀ e w', s.Steady w'.disk segments past → post (.error e) s w')
    (ready : ∀ all merged middle w', Pieces s segments all → MergeOf s all merged →
      middle.adopted (s.mergedSections merged) merged = s.compacted merged →
      (s.compacted merged).Steady w'.disk merged.segments (past ++ merged.history) →
      post (.ok (s, merged)) middle w') :
    Fallible.wp backend allow crash prepareCompact post s w := by
  simp only [prepareCompact, Fallible.wp_bind, wp_refuseReadOnly steady.sound.writable,
    Fallible.wp_read, Fallible.wp_ofExcept]
  cases taken : s.snapshot with
  | error e => exact unchanged e w steady
  | ok handles =>
    obtain ⟨all, pieces, shows⟩ := steady.sound.snapshot taken
    refine wp_views rfl shows ?_ (fun w' quiet => safe w' (quiet.2 ▸ steady)) ?_ ?_
    · intro view member
      obtain ⟨segment, inside, rfl⟩ := List.mem_map.mp member
      exact (pieces.ok segment inside).schema
    · exact fun w' quiet _ => unchanged _ w' (quiet.2 ▸ steady)
    · intro w₁ quiet
      have steady₁ : s.Steady w₁.disk segments past := quiet.2 ▸ steady
      cases merge : s.merge (all.map s.viewOf) with
      | error e =>
        simp only [merge]
        exact unchanged e w₁ steady₁
      | ok merged =>
        have merges := merge_spec pieces steady.sound.keyed steady.sound.threshold merge
        simp only [merge, Fallible.wp_when]
        refine ⟨fun stored => ?_, fun memory => ?_⟩
        · have onward {w' : World F} (same : ∀ name, s.Owns past name →
            w'.disk.get name = w₁.disk.get name) :
              s.Steady w'.disk segments past := steady₁.frame fun name _ own => same name own
          refine wp_publishMerged steady₁.sound merges (fun w' _ same => safe w' (onward same)) ?_ ?_
          · exact fun e w' _ same _ => unchanged _ w' (onward same)
          · intro w₂ published
            refine ready all merged _ w₂ pieces merges ?_
              (steady₁.compacted pieces merges fun _ => published)
            unfold Store.compacted
            rw [if_pos stored]
        · refine ready all merged s w₁ pieces merges ?_
            (@Steady.compacted F _ s w₁ segments past all merged w₁ steady₁ pieces merges
              fun stored => by simp [memory] at stored)
          unfold Store.compacted
          rw [if_neg (by simp [memory])]

/-- Past its commit, the compacted store only resets its log and sweeps. -/
theorem wp_finishCompact {middle : Store F}
    (adopts : middle.adopted (s.mergedSections merged) merged = s.compacted merged)
    (steady : (s.compacted merged).Steady w.disk merged.segments (past ++ merged.history))
    (stopped : ∀ w' writer, writer.isSome = s.wal.isSome →
      ({ s.compacted merged with wal := writer }).Steady w'.disk merged.segments
      (past ++ merged.history) → crash w')
    (ends : ∀ result w' writer, writer.isSome = s.wal.isSome →
      ({ s.compacted merged with wal := writer }).Steady w'.disk merged.segments
      (past ++ merged.history) →
      post result { s.compacted merged with wal := writer } w') :
    Fallible.wp backend allow crash (finishCompact (s, merged)) post middle w := by
  simp only [finishCompact, Fallible.wp_bind, Fallible.wp_update, adopts]
  refine wp_resetWalSteady steady (fun w' => stopped w' s.wal rfl) ?_
  intro result w₃ writer logs _ steady₃
  cases result with
  | error e => exact ends _ w₃ writer logs steady₃
  | ok _ =>
    simp only [Fallible.wp_when]
    refine ⟨fun _ => @wp_sweep F _ _ _ _ (past ++ merged.history) _ (fun w' _ same => ?_)
      fun w' _ same => ?_, fun _ => ?_⟩
    · exact stopped w' writer logs (steady₃.frame fun name _ own => same name own)
    · exact ends _ w' writer logs (steady₃.frame fun name _ own => same name own)
    · exact ends _ w₃ writer logs steady₃

/-- The rule for a compaction: it ends in the same store or, past its commit, in the compacted one.
-/
theorem wp_compactSteady (steady : s.Steady w.disk segments past)
    (safe : ∀ w', s.Steady w'.disk segments past → crash w')
    (stopped : ∀ all merged w' writer, Pieces s segments all → MergeOf s all merged →
      writer.isSome = s.wal.isSome →
      ({ s.compacted merged with wal := writer }).Steady w'.disk merged.segments
      (past ++ merged.history) → crash w')
    (unchanged : ∀ e w', s.Steady w'.disk segments past → post (.error e) s w')
    (ends : ∀ result all merged w' writer, Pieces s segments all → MergeOf s all merged →
      writer.isSome = s.wal.isSome →
      ({ s.compacted merged with wal := writer }).Steady w'.disk merged.segments
      (past ++ merged.history) →
      post result { s.compacted merged with wal := writer } w') :
    Fallible.wp backend allow crash compact post s w := by
  rw [compact_eq]
  refine Fallible.wp_bind.mpr
    (wp_prepareCompact steady safe unchanged
    fun all merged middle w' pieces merges adopts steady' => ?_)
  exact wp_finishCompact adopts steady' (fun w' writer => stopped all merged w' writer pieces merges)
    fun result w' writer => ends result all merged w' writer pieces merges

end Compact

theorem wp_conduct {op : Op F} {post : Except StorageError Nat → Store F → World F → Prop}
    (steady : s.Steady w.disk segments past)
    (safe : ∀ result s' w' segments' past', s.Conduct segments past op result s' segments' past' →
      s'.Steady w'.disk segments' past' → crash w')
    (ends : ∀ result s' w' segments' past', s.Conduct segments past op result s' segments' past' →
      s'.Steady w'.disk segments' past' → post result s' w') :
    Fallible.wp backend allow crash op.perform post s w := by
  -- Any error stands for the answer of an operation that was cut short.
  have still (e : StorageError) {s' : Store F} {segments' : List (Segment F)}
    (settles : s.Settles segments s' segments') :
      s.Conduct segments past op (.error e) s' segments' past :=
        .still op _ s' segments' settles (.inl ⟨e, rfl⟩)
  have stop (s' : Store F) (w' : World F) (segments' : List (Segment F))
    (settles : s.Settles segments s' segments')
      (steady' : s'.Steady w'.disk segments' past) : crash w' :=
    safe _ s' w' segments' past (still (.tombstoneOutOfRange 0) settles) steady'
  have refuse (e : StorageError) (s' : Store F) (w' : World F) (segments' : List (Segment F))
      (settles : s.Settles segments s' segments') (steady' : s'.Steady w'.disk segments' past) :
        post (.error e) s' w' :=
    ends _ s' w' segments' past (still e settles) steady'
  cases op with
  | append row =>
    change Fallible.wp backend allow crash (append row) post s w
    rw [append_eq]
    refine Fallible.wp_bind.mpr (wp_prepareAppend steady (fun w' => stop s w' segments .kept) ?_ ?_)
    · exact fun e w' => refuse e s w' segments .kept
    · intro w₁ valid steady₁
      refine wp_finishAppend steady₁ valid (fun s' w' segments' settles => ?_)
        fun result s' w' segments' settles steady' answer => ?_
      · exact safe (.error (.tombstoneOutOfRange 0)) s' w' segments' past
          (.append row valid _ s' segments' settles (.inl ⟨_, rfl⟩))
      · exact ends result s' w' segments' past
          (.append row valid result s' segments' settles answer) steady'
  | tombstone ids =>
    exact wp_tombstoneSteady steady (fun result s' w' segments' => safe result s' w' segments' past)
      fun result s' w' segments' => ends result s' w' segments' past
  | supersede rows victims =>
    change Fallible.wp backend allow crash (supersede rows victims) post s w
    rw [supersede_eq]
    refine Fallible.wp_bind.mpr (wp_prepareSupersede steady stop refuse ?_ ?_ ?_)
    · intro idle
      exact ends (.ok 0) s w segments past (.still _ _ s segments .kept (.inr ⟨idle, rfl⟩)) steady
    · intro first w₁ segments₁ filled valid settles mortal steady₁
      obtain ⟨row, rest, rfl⟩ := List.exists_cons_of_ne_nil filled
      have mark := Flushes.watermark settles
      have schema : first.schema = s.schema := by
        obtain ⟨sections, slots, buffer, bufferBase, knowledge, wal, frame⟩ := settles.frame
        rw [frame]
      rw [← mark]
      refine wp_finishRows steady₁ mortal (by rw [schema]; exact valid) ?_ ?_ ?_ ?_
      · intro done left taken s' w' segments' split takes after steady'
        rw [mark] at takes
        have conduct := @Conduct.partial_ F _ s segments past done left victims
          (.tombstoneOutOfRange 0) first taken s' segments₁
          segments' settles takes after
        rw [split] at conduct
        exact safe _ s' w' segments' past conduct steady'
      · intro taken committed s' w' segments₂ segments' takes after mortal' finally_ steady'
        rw [mark] at takes finally_
        exact safe (.error (.tombstoneOutOfRange 0)) s' w' segments' past
          (.supersede _ victims _ first taken committed s' segments₁
          segments₂ segments' (fun idle => by cases idle.1) settles takes after
          (settles.inside mortal) mortal' finally_ (.inl ⟨_, rfl⟩)) steady'
      · intro e done left taken s' w' segments' split takes _ after steady'
        rw [mark] at takes
        have conduct := @Conduct.partial_ F _ s segments past done left victims e first taken s'
          segments₁ segments' settles takes after
        rw [split] at conduct
        exact ends _ s' w' segments' past conduct steady'
      · intro result taken committed s' w' segments₂ segments' takes after mortal'
          finally_ steady' answer
        rw [mark] at takes finally_
        exact ends result s' w' segments' past
          (.supersede _ victims result first taken committed s' segments₁ segments₂ segments'
          (fun idle => by cases idle.1) settles takes after (settles.inside mortal) mortal' finally_
          answer) steady'
    · intro committed w₁ segments₁ bare newly settles mortal steady₁
      subst bare
      have axis : committed.AxisOk :=
        ⟨steady₁.sound.axis.counted, steady₁.sound.axis.explicit, steady₁.sound.axis.contiguous⟩
      have conduct (result : Except StorageError Nat) (s' : Store F) (segments' : List (Segment F))
          (finally_ : (committed.killing (s.newlyDead victims) s.watermark).Settles
            segments₁ s' segments')
          (answer : (∃ e, result = .error e) ∨ result = .ok (s.newlyDead victims).length) :
          s.Conduct segments past (.supersede [] victims) result s' segments' past :=
        .supersede [] victims result committed committed committed s' segments₁ segments₁ segments'
          (fun idle => newly idle.2)
          settles (.bare axis) .kept (settles.inside mortal) mortal finally_ answer
      have buried := @wp_bury F _ allow crash _ _ _ _ post _ _ steady₁
        (fun s' w' segments' finally_ =>
          safe _ s' w' segments' past
          (conduct (.error (.tombstoneOutOfRange 0)) s' segments' finally_ (.inl ⟨_, rfl⟩)))
        (fun result s' w' segments' finally_ steady' answer =>
          ends result s' w' segments' past (conduct result s' segments' finally_ answer) steady')
      simpa only [finishSupersede, pure_bind] using buried
  | flush =>
    refine Fallible.wp_bind.mpr
      (wp_flushSteady steady stop fun result s' w' segments' settles steady' _ => ?_)
    cases result with
    | error e => exact refuse e s' w' segments' settles steady'
    | ok _ =>
        exact ends (.ok 0) s' w' segments' past
          (.still _ _ s' segments' settles (.inr ⟨trivial, rfl⟩)) steady'
  | compact =>
    refine Fallible.wp_bind.mpr
      (wp_compactSteady steady (fun w' => stop s w' segments .kept) ?_
      (fun e w' => refuse e s w' segments .kept) ?_)
    · intro all merged w' writer pieces merges logs
      exact safe _ _ w' _ _
        (.compact all merged writer (.error (.tombstoneOutOfRange 0)) pieces merges logs
        (.inl ⟨_, rfl⟩))
    · intro result all merged w' writer pieces merges logs steady'
      cases result with
      | error e =>
          exact ends _ _ w' _ _
            (.compact all merged writer _ pieces merges logs (.inl ⟨e, rfl⟩)) steady'
      | ok _ =>
          exact ends (.ok 0) _ w' _ _
            (.compact all merged writer _ pieces merges logs (.inr rfl)) steady'

end Rules

end Store

end TallyDB
