import TallyDB.StorageLite.Runs

/-!
# One operation

Where no call fails, an operation is refused and changes nothing, or it has the effect its
kind says, or a full buffer blocks at a key column of nulls once its row is in.
-/

namespace TallyDB

open Crash

variable {F : Type} [F64 F] {allow : World F → Call F → Outcome → Prop} {crash : World F → Prop}
variable {s : Store F} {w : World F} {segments past : List (Segment F)}
  {flushed live : List (Replayed F)}

/-! ### Calls that do not fail -/

/-- Only the clock may say no. -/
def Sure (allow : World F → Call F → Outcome → Prop) : Prop :=
  ∀ w c left, allow w c (.err left) → c = .elapsed

section Sure

omit [F64 F]

theorem sure_noFailure : Sure (@NoFailure F) := fun _ _ _ allowed => allowed.resolve_left (by simp)

theorem Sure.write (sure : Sure allow) : ¬ WriteFails allow w := by
  rintro ⟨w', name, object, left, -, -, allowed⟩
  cases sure _ _ _ allowed

theorem Sure.logWrite (sure : Sure allow) : ¬ LogWriteFails allow w :=
  fun fails => sure.write fails.writeFails

theorem Sure.opens (sure : Sure allow) : ¬ OpenFails allow w := by
  rintro ⟨w', name, left, -, allowed⟩
  cases sure _ _ _ allowed

theorem Sure.append (sure : Sure allow) : ¬ AppendFails allow w := by
  rintro ⟨w', writer, entry, -, allowed⟩
  cases sure _ _ _ allowed

theorem Sure.spoils (sure : Sure allow) : ¬ Spoils allow w := by
  rintro ⟨w', -, ⟨writer, entry, left, -, allowed⟩ | ⟨writer, left, allowed⟩⟩ <;>
    cases sure _ _ _ allowed

theorem Sure.kill (sure : Sure allow) : ¬ Store.KillFails allow w := by
  rintro ⟨w', generation, number, object, left, -, allowed⟩
  cases sure _ _ _ allowed

theorem Sure.bracket (sure : Sure allow) : ¬ Store.BracketFails allow w := by
  rintro ⟨w', call, left, -, -, -, other, allowed⟩
  exact other (sure _ _ _ allowed)

theorem Sure.breaks (sure : Sure allow) : ¬ s.Breaks allow w := by
  rintro (spoils | bracket | ⟨-, write | opens⟩)
  · exact sure.spoils spoils
  · exact sure.bracket bracket
  · exact sure.write write
  · exact sure.opens opens

theorem Sure.scan (sure : Sure allow) : ¬ ScanFails allow w := by
  rintro ⟨w', call, left, -, kind, allowed⟩
  obtain rfl := sure _ _ _ allowed
  simp at kind

theorem Sure.fails (sure : Sure allow) : ¬ Store.Fails allow w := by
  rintro (scan | write | opens)
  · exact sure.scan scan
  · exact sure.write write
  · exact sure.opens opens

end Sure

/-! ### Effects -/

namespace Store

/-- What an operation makes of a store at rest, where no call fails. -/
inductive Effect (s : Store F) (w : World F) (segments past : List (Segment F))
    (flushed live : List (Replayed F)) :
    Op F → Except StorageError Nat → Store F → World F → List (Segment F) → List (Segment F) →
    List (Replayed F) →
      List (Replayed F) → Prop where
  | refused (op : Op F) (e : StorageError) (w' : World F)
      (same : ∀ name, s.Owns past name → w'.disk.get name = w.disk.get name) :
      Effect s w segments past flushed live op (.error e) s w' segments past flushed live
  | append (row : Row F) (valid : s.buffer.validate row = .ok ()) (s' : Store F) (w' : World F)
      (segments' : List (Segment F)) (flushed' live' : List (Replayed F)) (same : SameKills w w')
      (flushes : (s.taken row valid).Flushes segments flushed (live ++ [.row row]) s' segments'
        flushed' live') :
      Effect s w segments past flushed live (.append row) (.ok s.rows) s' w' segments'
        past flushed' live'
  | appendBlocked (row : Row F) (valid : s.buffer.validate row = .ok ()) (w' : World F)
      (column : String)
      (same : SameKills w w') (filled : s.segmentRows ≤ (s.taken row valid).buffer.len)
      (frozen : (s.taken row valid).frozenBuffer = .error (.allNullKeyColumn column)) :
      Effect s w segments past flushed live (.append row) (.error (.allNullKeyColumn column))
        (s.taken row valid) w'
        segments past flushed (live ++ [.row row])
  | tombstoneIdle (ids : List Nat) (idle : s.newlyDead ids = []) :
      Effect s w segments past flushed live (.tombstone ids) (.ok 0) s w segments past flushed live
  | tombstone (ids : List Nat) (s' : Store F) (w' : World F) (segments' : List (Segment F))
      (flushed' live' : List (Replayed F)) (newly : s.newlyDead ids ≠ [])
      (flushes : s.Flushes segments flushed live s' segments' flushed' live')
        (mortal : s'.Mortal (s.newlyDead ids))
      (memory : s.persistent = false → s' = s) (empty : s.Full → s'.buffer.rows = []) :
      Effect s w segments past flushed live (.tombstone ids) (.ok (s.newlyDead ids).length)
        ((s'.killing (s.newlyDead ids) s.watermark).consumeSequence s'.rows) w' segments'
          past flushed' live'
  | supersedeIdle (rows : List (Row F)) (victims : List Nat) (idle : s.newlyDead victims = [])
      (bare : rows = []) :
      Effect s w segments past flushed live (.supersede rows victims)
        (.ok 0) s w segments past flushed live
  | supersede (rows : List (Row F)) (victims : List Nat) (committed : Store F) (w₁ : World F)
      (segments₁ : List (Segment F)) (flushed₁ live₁ : List (Replayed F)) (s' : Store F) (w' : World F)
      (segments' : List (Segment F)) (flushed' live' : List (Replayed F))
      (commits : s.Commits w rows (s.newlyDead victims) segments past flushed live committed w₁
        segments₁ flushed₁ live₁)
      (same : SameKills w₁ w')
      (flushes : committed.Flushes segments₁ flushed₁ live₁ s' segments' flushed' live') :
      Effect s w segments past flushed live (.supersede rows victims)
        (.ok (s.newlyDead victims).length) s' w' segments'
        past flushed' live'
  | supersedeBlocked (rows : List (Row F)) (victims : List Nat) (committed : Store F) (w' : World F)
      (segments' : List (Segment F)) (flushed' live' : List (Replayed F)) (column : String)
      (commits : s.Commits w rows (s.newlyDead victims) segments past flushed live committed w'
        segments' flushed' live')
      (filled : committed.segmentRows ≤ committed.buffer.len)
      (frozen : committed.frozenBuffer = .error (.allNullKeyColumn column)) :
      Effect s w segments past flushed live (.supersede rows victims)
        (.error (.allNullKeyColumn column)) committed w'
        segments' past flushed' live'
  | supersedeOffline (rows : List (Row F)) (victims : List Nat) (first s' : Store F) (w' : World F)
      (segments' : List (Segment F)) (flushed' live' : List (Replayed F)) (column : String)
        (offline : s.wal = none)
      (same : SameKills w w') (flushes : s.Flushes segments flushed live first segments' flushed' live')
      (replays : first.Replays [.supersession s.watermark rows] s') :
      Effect s w segments past flushed live (.supersede rows victims)
        (.error (.allNullKeyColumn column)) s' w' segments'
        past flushed' (live' ++ [.supersession s.watermark rows])
  | flush (s' : Store F) (w' : World F) (segments' : List (Segment F))
      (flushed' live' : List (Replayed F))
      (same : SameKills w w') (flushes : s.Flushes segments flushed live s' segments' flushed' live') :
      Effect s w segments past flushed live .flush (.ok 0) s' w' segments' past flushed' live'
  | compact (all : List (Segment F)) (merged : Merged F) (writer : Option Nat) (w' : World F)
      (pieces : Pieces s segments all) (merges : MergeOf s all merged)
        (logs : writer.isSome = s.wal.isSome) :
      Effect s w segments past flushed live .compact (.ok 0)
        { s.compacted merged with wal := writer } w' merged.segments
        (past ++ merged.history) [] []

/-! ### What effects have in common -/

/-- Killing the rows that still live is killing them all. -/
theorem mark_newlyDead (ids : List Nat) : (s.ledger segments).mark
      (s.newlyDead ids) = (s.ledger segments).mark ids := by
  unfold Ledger.mark
  refine List.ext_getElem (by simp) fun id bound _ => ?_
  simp only [List.getElem_map, List.getElem_zipIdx, Nat.zero_add, Prod.mk.injEq, true_and]
  have inside : id < (s.ledger segments).length := by simpa using bound
  have flag : (s.ledger segments)[id].2 = s.isKilled id := by
    simp [Store.ledger, ledgerOf, isKilled, killedAt]
  rw [flag]
  cases dead : s.isKilled id with
  | true => rfl
  | false => simp [mem_newlyDead, dead]

variable {s' : Store F} {w' : World F} {segments' past' : List (Segment F)}
  {flushed' live' : List (Replayed F)}
variable {rows : List (Row F)} {ids : List Nat} {op : Op F} {result : Except StorageError Nat}

theorem Commits.frame
    (commits : s.Commits w rows ids segments past flushed live s' w' segments' flushed' live') :
    ∃ sections segments buffer bufferBase knowledge wal rows deleteLogSequence, s' = { s with
      sections, segments, buffer, bufferBase, knowledge, wal, rows, deleteLogSequence,
      tombstones := ids.map (·, s.watermark) ++ s.tombstones } ∧ wal.isSome = s.wal.isSome := by
  obtain ⟨taken, w₁, stages, -, -, same⟩ := commits.stages
  cases stages with
  | intro first _ _ segments₁ _ flushed₁ live₁ _ _ _ flushes early takes =>
    obtain ⟨sections, slots, buffer, bufferBase, knowledge, wal, frame, logs⟩ := flushes.frame
    obtain ⟨sections', slots', buffer', bufferBase', knowledge', wal', rows', frame', logs'⟩ :=
      takes.frame
    rw [same, frame', frame]
    refine ⟨_, _, _, _, _, _, _, _, rfl, ?_⟩
    rw [frame] at logs'
    exact logs'.trans logs

theorem Takes.watermark (takes : s.Takes rows segments flushed live s' segments' flushed' live') :
    s'.watermark = if rows = [] then s.watermark else s.watermark + 1 := by
  have counts {taken : Store F} (replays : s.Replays [.supersession s.watermark rows] taken) :
      taken.watermark = if rows = [] then s.watermark else s.watermark + 1 := by
    rw [replays.watermark]
    simp [replayBirths, Replayed.births]
  cases takes with
  | logged _ replays => exact counts replays
  | flushed taken _ _ _ _ offline replays flushes => exact flushes.watermark.trans (counts replays)

theorem Commits.watermark
    (commits : s.Commits w rows ids segments past flushed live s' w' segments' flushed' live') :
    s'.watermark = if rows = [] then s.watermark else s.watermark + 1 := by
  obtain ⟨taken, w₁, stages, -, -, same⟩ := commits.stages
  cases stages with
  | intro first _ _ segments₁ _ flushed₁ live₁ _ _ _ flushes early takes =>
    have own : s'.watermark = taken.watermark := by
      rw [same]
      obtain ⟨sections, slots, buffer, bufferBase, knowledge, wal, rows, frame, -⟩ := takes.frame
      rfl
    have after := takes.watermark
    rw [flushes.watermark] at after
    exact own.trans after

theorem Effect.frame
    (effect : s.Effect w segments past flushed live op result s' w' segments' past' flushed' live') :
    s'.schema = s.schema ∧ s'.orderingKey = s.orderingKey ∧ s'.persistent = s.persistent ∧
    s'.walSync = s.walSync ∧
      s'.wal.isSome = s.wal.isSome ∧ s'.segmentRows = s.segmentRows := by
  cases effect with
  | refused => simp
  | append row valid _ _ _ _ _ same flushes =>
    obtain ⟨sections, slots, buffer, bufferBase, knowledge, wal, frame, logs⟩ := flushes.frame
    rw [frame]
    exact ⟨rfl, rfl, rfl, rfl, logs, rfl⟩
  | appendBlocked => exact ⟨rfl, rfl, rfl, rfl, rfl, rfl⟩
  | tombstoneIdle => simp
  | tombstone ids s₁ _ _ _ _ newly flushes =>
    obtain ⟨sections, slots, buffer, bufferBase, knowledge, wal, frame, logs⟩ := flushes.frame
    rw [frame]
    exact ⟨rfl, rfl, rfl, rfl, logs, rfl⟩
  | supersedeIdle => simp
  | supersede rows victims committed w₁ _ _ _ _ _ _ _ _ commits same flushes =>
    obtain ⟨_, _, _, _, _, _, _, _, frame₁, logs₁⟩ := commits.frame
    obtain ⟨sections, slots, buffer, bufferBase, knowledge, wal, frame, logs⟩ := flushes.frame
    rw [frame₁] at logs
    rw [frame, frame₁]
    exact ⟨rfl, rfl, rfl, rfl, logs.trans logs₁, rfl⟩
  | supersedeBlocked rows victims _ _ _ _ _ column commits =>
    obtain ⟨_, _, _, _, _, _, _, _, frame₁, logs₁⟩ := commits.frame
    rw [frame₁]
    exact ⟨rfl, rfl, rfl, rfl, logs₁, rfl⟩
  | supersedeOffline rows victims first _ _ _ _ _ column offline same flushes replays =>
    obtain ⟨sections, slots, buffer, bufferBase, knowledge, wal, frame, logs⟩ := flushes.frame
    obtain ⟨_, _, _, frame'⟩ := replays.frame
    rw [frame', frame]
    exact ⟨rfl, rfl, rfl, rfl, logs, rfl⟩
  | flush _ _ _ _ _ same flushes =>
    obtain ⟨sections, slots, buffer, bufferBase, knowledge, wal, frame, logs⟩ := flushes.frame
    rw [frame]
    exact ⟨rfl, rfl, rfl, rfl, logs, rfl⟩
  | compact all merged writer _ pieces merges logs => exact ⟨rfl, rfl, rfl, rfl, logs, rfl⟩

theorem Effect.full
    (effect : s.Effect w segments past flushed live op result s' w' segments' past' flushed' live') :
    s'.Full ↔ s.Full := by
  obtain ⟨-, -, persistent, walSync, logs, -⟩ := effect.frame
  exact ⟨fun full => ⟨persistent ▸ full.persistent, walSync ▸ full.walSync, logs ▸ full.logs⟩,
    fun full => ⟨persistent.trans full.persistent, walSync.trans full.walSync, logs.trans full.logs⟩⟩

/-- A store with a log applies an operation or stays as it is. -/
theorem Effect.ledger (held : s.Held w.disk segments past flushed live) (logs : s.wal.isSome)
    (effect : s.Effect w segments past flushed live op result s' w' segments' past' flushed' live') :
    (∃ e, result = .error e) ∧ s'.ledger segments' = s.ledger segments ∨
      s'.ledger segments' = op.apply s.orderingKey (s.ledger segments) := by
  cases effect with
  | refused _ e => exact .inl ⟨⟨e, rfl⟩, rfl⟩
  | append row valid _ _ _ _ _ same flushes =>
      exact .inr (flushes.ledger.trans (held.sound.ledger_taken))
  | appendBlocked row valid => exact .inr held.sound.ledger_taken
  | tombstoneIdle ids idle =>
    refine .inr ?_
    rw [Op.apply, ← mark_newlyDead, idle, Ledger.mark_nil]
  | tombstone ids s₁ _ _ _ _ newly flushes =>
    refine .inr ?_
    change (s₁.killing _ _).ledger segments' = _
    rw [ledger_killing, flushes.ledger, mark_newlyDead]
    rfl
  | supersedeIdle rows victims idle bare =>
    refine .inr ?_
    rw [Op.apply, ← mark_newlyDead, idle, Ledger.mark_nil, bare]
    exact (List.append_nil _).symm
  | supersede rows victims committed w₁ _ _ _ _ _ _ _ _ commits same flushes =>
    refine .inr ((flushes.ledger.trans commits.ledger).trans ?_)
    rw [mark_newlyDead]
    rfl
  | supersedeBlocked rows victims _ _ _ _ _ column commits =>
    refine .inr (commits.ledger.trans ?_)
    rw [mark_newlyDead]
    rfl
  | supersedeOffline rows victims first _ _ _ _ _ column offline =>
    rw [offline] at logs
    cases logs
  | flush _ _ _ _ _ same flushes => exact .inr flushes.ledger
  | compact all merged writer _ pieces merges =>
      exact .inr (ledger_compacted pieces held.sound.keyed merges)

theorem Effect.rowless (held : s.Held w.disk segments past flushed live) (full : s.Full)
    (rowless : Rowless (s.pending w.disk live))
    (effect : s.Effect w segments past flushed live op result s' w' segments' past' flushed' live') :
    Rowless (s'.pending w'.disk live') := by
  cases effect with
  | refused _ e w' same =>
    exact rowless.subset (pending_subset rfl (fun _ => (Committed.frame fun number =>
      same (.deleteLog s.generation number) rfl).mpr) fun _ => .inl)
  | append row valid _ _ _ _ _ same flushes =>
    refine (rowless.subset ?_).subset (flushes.fewer same)
    exact pending_subset rfl (fun _ => id) fun unit member => by
      rcases List.mem_append.mp member with old | new
      · exact .inl old
      · exact .inr (List.mem_singleton.mp new ▸ trivial)
  | appendBlocked row valid w' column same =>
    exact rowless.subset
        (pending_subset rfl (fun _ => (Committed.frame (same.2 s.generation)).mpr) fun unit member => by
      rcases List.mem_append.mp member with old | new
      · exact .inl old
      · exact .inr (List.mem_singleton.mp new ▸ trivial))
  | tombstoneIdle => exact rowless
  | tombstone ids s₁ _ _ _ _ newly flushes mortal memory empty =>
    cases flushes with
    | moved => simp [Rowless, pending]
    | kept =>
      -- The flush found nothing to move, so no live unit holds a row.
      have none : unitRows live = [] := (held.logged full).log.rows.trans (empty full)
      exact fun unit member => List.flatMap_eq_nil_iff.mp none unit (mem_pending.mp member).1
  | supersedeIdle => exact rowless
  | supersede rows victims committed w₁ _ _ _ _ _ _ _ _ commits same flushes =>
    exact (rowless.subset (commits.fewer full)).subset (flushes.fewer same)
  | supersedeBlocked rows victims _ _ _ _ _ column commits => exact rowless.subset (commits.fewer full)
  | supersedeOffline rows victims first _ _ _ _ _ column offline =>
    have logs := full.logs
    rw [offline] at logs
    cases logs
  | flush _ _ _ _ _ same flushes => exact rowless.subset (flushes.fewer same)
  | compact => simp [Rowless, pending]

/-- Every kill is stamped below the watermark. -/
def Stamped (s : Store F) : Prop := ∀ id stamp, s.tombstones.lookup id = some stamp →
    stamp < s.watermark

theorem Flushes.stamped (flushes : s.Flushes segments flushed live s' segments' flushed' live')
    (stamped : s.Stamped) :
    s'.Stamped := by
  have mark := flushes.watermark
  obtain ⟨sections, slots, buffer, bufferBase, knowledge, wal, frame, -⟩ := flushes.frame
  intro id stamp killed
  rw [mark]
  exact stamped id stamp (by rwa [frame] at killed)

theorem Commits.stamped
    (commits : s.Commits w rows ids segments past flushed live s' w' segments' flushed' live')
    (stamped : s.Stamped) (filled : rows ≠ []) : s'.Stamped := by
  have mark := commits.watermark
  obtain ⟨_, _, _, _, _, _, _, _, frame, -⟩ := commits.frame
  intro id stamp killed
  rw [mark, if_neg filled]
  rw [frame] at killed
  rw [lookup_buried] at killed
  split at killed
  · exact Option.some.inj killed ▸ Nat.lt_succ_self _
  · exact Nat.lt_succ_of_lt (stamped id stamp killed)

/-- A supersession with replacements consumes its coordinate, so every stamp stays below. -/
theorem Effect.stamped (logs : s.wal.isSome) (stamped : s.Stamped)
    (filled : ∀ rows victims, op = .supersede rows victims → rows ≠ [])
    (effect : s.Effect w segments past flushed live op result s' w' segments' past' flushed'
      live') : s'.Stamped := by
  have taken (row : Row F) (valid : s.buffer.validate row = .ok ()) : (s.taken row valid).Stamped :=
      fun id stamp killed => by
    rw [taken_watermark]
    exact Nat.lt_succ_of_lt (stamped id stamp killed)
  cases effect with
  | refused => exact stamped
  | append row valid _ _ _ _ _ same flushes => exact flushes.stamped (taken row valid)
  | appendBlocked row valid => exact taken row valid
  | tombstoneIdle => exact stamped
  | tombstone ids s₁ _ _ _ _ newly flushes =>
    have mark : ((s₁.killing (s.newlyDead ids) s.watermark).consumeSequence s₁.rows).watermark =
        s₁.watermark + 1 :=
      consume_watermark (s₁.killing (s.newlyDead ids) s.watermark)
    have before := flushes.stamped stamped
    intro id stamp killed
    rw [mark]
    have found : ((s.newlyDead ids).map (·, s.watermark) ++ s₁.tombstones).lookup id = some stamp :=
      killed
    rw [lookup_buried] at found
    split at found
    · exact Option.some.inj found ▸ flushes.watermark ▸ Nat.lt_succ_self _
    · exact Nat.lt_succ_of_lt (before id stamp found)
  | supersedeIdle => exact stamped
  | supersede rows victims committed w₁ _ _ _ _ _ _ _ _ commits same flushes =>
    exact flushes.stamped (commits.stamped stamped (filled rows victims rfl))
  | supersedeBlocked rows victims _ _ _ _ _ column commits =>
      exact commits.stamped stamped (filled rows victims rfl)
  | supersedeOffline rows victims first _ _ _ _ _ column offline =>
    rw [offline] at logs
    cases logs
  | flush _ _ _ _ _ same flushes => exact flushes.stamped stamped
  | compact => exact fun id stamp killed => by cases killed

/-- What a disk may recover while an operation is under way. -/
def Midway (s : Store F) (w : World F) (segments : List (Segment F))
    (live : List (Replayed F)) (op : Op F)
    (ledger : Ledger F) : Prop :=
  ledger = s.settledLedger w.disk segments live ∨ ledger = s.ledger segments ∨
    ledger = op.apply s.orderingKey (s.ledger segments) ∨
    Committed w.disk s.generation s.watermark ∧ ∃ rows victims, op = .supersede rows victims ∧
      ledger = s.ledger segments ++ rows.map (·, false)

theorem wp_perform {op : Op F} {post : Except StorageError Nat → Store F → World F → Prop}
    (held : s.Held w.disk segments past flushed live) (sure : Sure allow)
    (safe : ∀ w', (s.Full →
      w'.disk.Recovers s.schema s.orderingKey (s.pending w.disk live) (s.Midway w segments live op)) →
      crash w')
    (effect : ∀ result s' w' segments' past' flushed' live',
      s.Effect w segments past flushed live op result s' w' segments' past' flushed' live' →
      s'.Held w'.disk segments' past' flushed' live' → post result s' w') :
    Fallible.wp backend allow crash op.perform post s w := by
  have keep (e : StorageError) : post (.error e) s w :=
    effect _ _ _ _ _ _ _ (.refused op e w fun _ _ => rfl) held
  cases op with
  | append row =>
    refine wp_append held ?_ ?_ ?_ ?_ ?_ ?_ ?_ ?_
    · exact fun w' recovers => safe w' fun full => (recovers full).mono fun ledger which =>
        which.elim .inl fun after => .inr (.inr (.inl after))
    · exact fun e _ => keep e
    · exact fun w' _ fails _ => (sure.append fails).elim
    · exact fun w' e _ _ fails _ => (sure.spoils fails).elim
    · exact fun valid w' column same filled frozen held' =>
        effect _ _ _ _ _ _ _ (.appendBlocked row valid w' column same filled frozen) held'
    · exact fun valid s' w' segments' flushed' live' _ fails _ _ => (sure.write fails).elim
    · exact fun s' w' _ fails _ => (sure.opens fails).elim
    · exact fun valid s' w' segments' flushed' live' same flushes held' =>
        effect _ _ _ _ _ _ _ (.append row valid s' w' segments' flushed' live' same flushes) held'
  | tombstone ids =>
    refine wp_tombstone held ?_ ?_ ?_ ?_ ?_ ?_
    · refine fun w' recovers => safe w' fun full => (recovers full).mono fun ledger which => ?_
      rcases which with before | settles | after
      · exact .inr (.inl before)
      · exact .inl settles
      · exact .inr (.inr (.inl (after.trans (mark_newlyDead ids))))
    · exact fun e _ => keep e
    · exact fun idle => effect _ _ _ _ _ _ _ (.tombstoneIdle ids idle) held
    · exact fun s' w' segments' flushed' live' _ fails _ _ => (fails.elim sure.write sure.kill).elim
    · exact fun s' w' _ fails _ => (sure.opens fails).elim
    · exact fun s' w' segments' flushed' live' newly later flushes mortal memory held' empty =>
        effect _ _ _ _ _ _ _
          (.tombstone ids s' w' segments' flushed' live' newly flushes mortal memory empty) held'
  | supersede rows victims =>
    refine wp_supersede held ⟨?_, ?_, ?_, ?_, ?_, ?_, ?_, ?_, ?_⟩ ?_ ?_
    · refine fun w' recovers => safe w' fun full => (recovers full).mono fun ledger which => ?_
      rcases which with (settles | before | ⟨early, both⟩) | after
      · exact .inl settles
      · exact .inr (.inl before)
      · exact .inr (.inr (.inr ⟨early, rows, victims, rfl, both⟩))
      · refine .inr (.inr (.inl (after.trans ?_)))
        rw [mark_newlyDead]
        rfl
    · exact fun e s' w' segments' flushed' live' _ fails _ _ => (fails.elim sure.write sure.append).elim
    · exact fun e s' w' _ fails _ => (fails.elim sure.opens sure.breaks).elim
    · exact fun first s' w' segments' flushed' live' column offline same flushes replays held' =>
        effect _ _ _ _ _ _ _
          (.supersedeOffline rows victims first s' w' segments' flushed' live' column offline same
          flushes replays) held'
    · exact fun taken w' segments' flushed' live' _ fails _ _ => (sure.kill fails).elim
    · exact fun s' w' segments' flushed' live' column commits filled frozen =>
        effect _ _ _ _ _ _ _
          (.supersedeBlocked rows victims s' w' segments' flushed' live' column commits filled frozen)
          commits.held
    · exact fun committed w' segments' flushed' live' s'' w'' segments'' flushed'' live''
          _ _ fails _ _ =>
        (fails.elim sure.bracket fun both => sure.write both.2).elim
    · exact fun s' w' _ fails _ => (sure.opens fails).elim
    · exact fun committed w' segments' flushed' live' s'' w'' segments'' flushed'' live'' commits
          same flushes held' =>
        effect _ _ _ _ _ _ _
          (.supersede rows victims committed w' segments' flushed' live' s'' w'' segments'' flushed''
          live'' commits same flushes) held'
    · exact fun e _ => keep e
    · exact fun idle bare => effect _ _ _ _ _ _ _ (.supersedeIdle rows victims idle bare) held
  | flush =>
    refine Fallible.wp_bind.mpr (wp_flushHeld held ?_ ?_ ?_ ?_ ?_)
    · exact fun w' recovers => safe w' fun full => (recovers full).mono fun ledger which =>
        which.elim (fun before => .inr (.inl before)) .inl
    · exact fun column _ _ => keep _
    · exact fun s' w' segments' flushed' live' _ fails _ _ => (sure.write fails).elim
    · exact fun s' w' _ fails _ => (sure.opens fails).elim
    · exact fun s' w' segments' flushed' live' same _ flushes held' _ =>
        effect _ _ _ _ _ _ _ (.flush s' w' segments' flushed' live' same flushes) held'
  | compact =>
    refine Fallible.wp_bind.mpr (wp_compact held ?_ ?_ ?_ ?_)
    · exact fun w' recovers => safe w' fun full => (recovers full).mono fun ledger which =>
        which.elim .inl fun after => .inr (.inr (.inl after))
    · exact fun e w' _ same held' => effect _ _ _ _ _ _ _ (.refused .compact e w' same) held'
    · exact fun e s' w' _ fails _ => (fails.elim sure.logWrite sure.opens).elim
    · exact fun all merged writer w' pieces merges _ held' logs =>
        effect _ _ _ _ _ _ _ (.compact all merged writer w' pieces merges logs) held'

end Store

end TallyDB
