import TallyDB.StorageLite.Append

/-!
# Killing rows

A kill is its delete log: before that write the disk recovers the ledger as it was, after it
the ledger with the rows marked dead.
-/

namespace TallyDB

open Crash

variable {F : Type} [F64 F] {allow : World F → Call F → Outcome → Prop} {crash : World F → Prop}
variable {s : Store F} {w : World F} {segments past : List (Segment F)}
  {flushed live : List (Replayed F)}

/-! ### Marks -/

def Ledger.mark (ledger : Ledger F) (ids : List Nat) : Ledger F :=
  ledger.zipIdx.map fun ((row, dead), id) => (row, dead || id ∈ ids)

theorem lookup_buried (ids : List Nat) (stamp : Nat) (kills : Tombstones) (id : Nat) :
    (ids.map (·, stamp) ++ kills).lookup id = if id ∈ ids then some stamp else kills.lookup id := by
  induction ids with
  | nil => simp
  | cons first rest ih =>
    rw [List.map_cons, List.cons_append, List.lookup_cons, ih]
    by_cases same : id = first
    · simp [same]
    · have different : (id == first) = false := by simpa using same
      simp [different, same]

omit [F64 F] in
theorem ledgerOf_buried (rows : List (Row F)) (ids : List Nat) (stamp : Nat) (kills : Tombstones) :
    ledgerOf rows (ids.map (·, stamp) ++ kills) = Ledger.mark (ledgerOf rows kills) ids := by
  unfold ledgerOf Ledger.mark
  refine List.ext_getElem (by simp) fun id bound _ => ?_
  simp only [List.getElem_map, List.getElem_zipIdx, Nat.zero_add, lookup_buried]
  split
  · next inside => simp [inside]
  · next outside => simp [outside]

omit [F64 F] in
theorem Ledger.mark_nil (ledger : Ledger F) : ledger.mark [] = ledger := by
  unfold mark
  refine List.ext_getElem (by simp) fun id _ _ => ?_
  simp

omit [F64 F] in
theorem Ledger.mark_append {ledger more : Ledger F} {ids : List Nat}
    (inside : ∀ id ∈ ids, id < ledger.length) :
    Ledger.mark (ledger ++ more) ids = ledger.mark ids ++ more := by
  unfold mark
  rw [List.zipIdx_append, List.map_append]
  congr 1
  refine List.ext_getElem (by simp) fun id _ _ => ?_
  have outside : ledger.length + id ∉ ids := fun member => by
    have bound := inside _ member
    omega
  simp [outside]

namespace Store

/-! ### The delete log -/

omit [F64 F] in
theorem mem_newlyDead {ids : List Nat} {id : Nat} : id ∈ s.newlyDead ids ↔ id ∈ ids ∧
    s.isKilled id = false := by
  simp [newlyDead, List.mem_insertionSort]

omit [F64 F] in
theorem newlyDead_ascending (ids : List Nat) : (s.newlyDead ids).Pairwise (· < ·) := by
  have sorted := List.pairwise_insertionSort (· ≤ ·) ((ids.filter fun id => !s.isKilled id).dedup)
  have distinct : (s.newlyDead ids).Nodup :=
    (List.perm_insertionSort _ _).nodup_iff.mpr (List.nodup_dedup _)
  exact (sorted.and distinct).imp fun both => Nat.lt_of_le_of_ne both.1 both.2

def killing (store : Store F) (ids : List Nat) (stamp : Nat) : Store F :=
  { store.bury ids stamp with
    deleteLogSequence :=
    if store.persistent then store.deleteLogSequence + 1 else store.deleteLogSequence }

/-- Writing a delete log may fail somewhere after `w`. -/
def KillFails (allow : World F → Call F → Outcome → Prop) (w : World F) : Prop :=
  ∃ (w' : World F) (generation number : Nat) (object : Object F) (left : Leftover),
    w.trace <+: w'.trace ∧
    allow w' (.write (.deleteLog generation number) object) (.err left)

omit [F64 F] in
theorem KillFails.earlier {w' : World F} (fails : KillFails allow w') (before : w.trace <+: w'.trace) :
    KillFails allow w := by
  obtain ⟨v, generation, number, object, left, after, rest⟩ := fails
  exact ⟨v, generation, number, object, left, before.trans after, rest⟩

/-- A world whose disk gained the delete log of a kill, where there is a disk. -/
structure Wrote (store : Store F) (log : DeleteLog) (before after : World F) : Prop where
  later : before.trace <+: after.trace
  others : ∀ name, name ≠ .deleteLog store.generation store.deleteLogSequence →
    after.disk.get name = before.disk.get name
  written : store.persistent = true →
    after.disk.get (.deleteLog store.generation store.deleteLogSequence) = some (.deleteLog log)
  memory : store.persistent = false → after = before

variable {post : Except StorageError Unit → Store F → World F → Prop}

omit [F64 F] in
theorem wp_commitKills {ids : List Nat} {stampedAt superseding : Nat} (before : crash w)
    (failed : ∀ w', s.persistent = true → w'.disk = w.disk → w.trace <+: w'.trace → KillFails allow w →
      post (.error (.io (.backend .write))) s w')
    (done : ∀ w', s.Wrote ⟨ids, stampedAt, superseding⟩ w w' →
      post (.ok ()) { s with deleteLogSequence :=
        if s.persistent then s.deleteLogSequence + 1 else s.deleteLogSequence } w') :
    Fallible.wp backend allow crash (commitKills ids stampedAt superseding) post s w := by
  simp only [commitKills, Fallible.wp_bind, Fallible.wp_read, Fallible.wp_when, Io.wp_write,
    Fallible.wp_update]
  refine ⟨fun stored => ⟨before, fun _ => ?_, fun left allowed => ?_⟩, fun memory => ?_⟩
  · have after := done (w.did (.write (.deleteLog s.generation s.deleteLogSequence)
      (.deleteLog ⟨ids, stampedAt, superseding⟩)) .ok) {
        later := World.trace_did w _ _
        others := fun name different => Disk.get_publish_other different
        written := fun _ => (Disk.get_publish (by simp)).trans (if_pos rfl)
        memory := fun memory => by rw [stored] at memory; cases memory }
    rwa [if_pos stored] at after
  · exact failed _ stored rfl (World.trace_did w _ _) ⟨w, _, _, _, left, List.prefix_rfl, allowed⟩
  · have after := done w {
      later := List.prefix_rfl
      others := fun _ _ => rfl
      written := fun stored => by rw [memory] at stored; cases stored
      memory := fun _ => rfl }
    rwa [if_neg (by simp [memory])] at after

/-- What a kill needs of the rows it names. -/
structure Mortal (store : Store F) (ids : List Nat) : Prop where
  alive : ∀ id ∈ ids, store.isKilled id = false
  inside : ∀ id ∈ ids, id < store.rows
  durable : store.persistent = true → ∀ id ∈ ids, id < store.bufferBase
  ascending : ids.Pairwise (· < ·)

omit [F64 F] in
theorem isKilled_killing {ids : List Nat} {stamp id : Nat} :
    (s.killing ids stamp).isKilled id = true ↔ id ∈ ids ∨ s.isKilled id = true := by
  change ((ids.map (·, stamp) ++ s.tombstones).lookup id).isSome = true ↔ _
  rw [lookup_buried]
  unfold isKilled killedAt
  split
  · next inside => simp [inside]
  · next outside => simp [outside]

theorem ledger_killing (ids : List Nat) (stamp : Nat) :
    (s.killing ids stamp).ledger segments = (s.ledger segments).mark ids := ledgerOf_buried _ _ _ _

theorem Sound.killing {w' : World F} {ids : List Nat} {stamp : Nat} {log : DeleteLog}
    (sound : s.Sound w.disk segments past) (mortal : s.Mortal ids) (wrote : s.Wrote log w w') :
    (s.killing ids stamp).Sound w'.disk segments past := by
  have framed := @Sound.frame _ s w.disk w'.disk segments past _ sound fun name reads =>
    wrote.others name (by rintro rfl; exact reads)
  exact {
    writable := framed.writable
    keyed := framed.keyed
    threshold := framed.threshold
    bufferSchema := framed.bufferSchema
    bufferKey := framed.bufferKey
    axis := ⟨framed.axis.counted, framed.axis.explicit, framed.axis.contiguous⟩
    slots := framed.slots
    segmentsOk := framed.segmentsOk
    covers := framed.covers
    below := framed.below
    killed := fun id dead => (isKilled_killing.mp dead).elim (mortal.inside id) (framed.killed id)
    history := framed.history
    pastOk := framed.pastOk
    remembered := framed.remembered
    virtual := framed.virtual
    inOrder := framed.inOrder }

theorem Filed.killing {w' : World F} {ids : List Nat} {stamp superseding : Nat}
    (filed : s.Filed w.disk segments past)
    (mortal : s.Mortal ids) (stored : s.persistent = true)
    (wrote : s.Wrote ⟨ids, stamp, superseding⟩ w w') :
    (s.killing ids stamp).Filed w'.disk segments past := by
  have old := filed.layout
  have fresh : w.disk.get (.deleteLog s.generation s.deleteLogSequence) = none := by
    cases held : w.disk.get (.deleteLog s.generation s.deleteLogSequence) with
    | none => rfl
    | some object => exact absurd (old.deleteLogs _ _ held).1 (Nat.lt_irrefl _)
  have next : (s.killing ids stamp).deleteLogSequence = s.deleteLogSequence + 1 := if_pos stored
  have kills (id : Nat) : (s.killing ids stamp).tombstones.lookup id =
      if id ∈ ids then some stamp else s.tombstones.lookup id := lookup_buried ids stamp s.tombstones id
  have name (number : Nat) (older : number ≠ s.deleteLogSequence) :
      w'.disk.get (.deleteLog s.generation number) = w.disk.get (.deleteLog s.generation number) :=
    wrote.others _ (by simpa using older)
  refine ⟨⟨?_, old.records, fun segment member => ?_, old.history, fun index segment held => ?_,
    ?_, ?_⟩, ?_, ?_⟩
  · exact (wrote.others _ (by simp)).trans old.manifest
  · exact (wrote.others _ (by simp)).trans (old.files segment member)
  · exact (wrote.others _ (by simp)).trans (old.historyFiles index segment held)
  · intro number object held
    rw [next]
    by_cases own : number = s.deleteLogSequence
    · subst own
      have same := (wrote.written stored).symm.trans held
      obtain rfl := Option.some.inj same
      exact ⟨Nat.lt_succ_self _, _, rfl, mortal.ascending,
        fun id member => (kills id).trans (if_pos member)⟩
    · obtain ⟨bound, log, rfl, ascending, stamps⟩ :=
        old.deleteLogs number object ((name number own).symm.trans held)
      refine ⟨Nat.lt_succ_of_lt bound, log, rfl, ascending, fun id member => ?_⟩
      have dead := stamps id member
      have outside : id ∉ ids := fun inside => by
        have alive := mortal.alive id inside
        simp [isKilled, killedAt, dead] at alive
      rw [kills, if_neg outside, dead]
  · intro id at_ dead
    rw [kills] at dead
    split at dead
    · next inside => exact ⟨s.deleteLogSequence, _, wrote.written stored, inside⟩
    · obtain ⟨number, log, held, member⟩ := old.logged id at_ dead
      refine ⟨number, log, (name number ?_).trans held, member⟩
      rintro rfl
      rw [fresh] at held
      cases held
  · intro id dead
    exact (isKilled_killing.mp dead).elim (mortal.durable stored id) (filed.killedDurable id)
  · intro bare base object held
    exact filed.leftover bare base object ((wrote.others _ (by simp)).symm.trans held)

theorem Logged.killing {w' : World F} {ids : List Nat} {stamp superseding : Nat}
    (logged : s.Logged w.disk segments past flushed live) (mortal : s.Mortal ids)
    (stored : s.persistent = true)
    (wrote : s.Wrote ⟨ids, stamp, superseding⟩ w w')
    (new : superseding ≠ 0 → Witnessed segments (s.killing ids stamp).tombstones live superseding) :
    (s.killing ids stamp).Logged w'.disk segments past flushed live := by
  have filed := logged.filed.killing mortal stored wrote
  refine ⟨filed.layout, filed.killedDurable, ?_, ?_, ?_, logged.ordinary⟩
  · rintro sequence ⟨nonzero, number, log, held, rfl⟩
    by_cases own : number = s.deleteLogSequence
    · subst own
      obtain rfl := Object.deleteLog.inj (Option.some.inj ((wrote.written stored).symm.trans held))
      exact new nonzero
    · have older := (wrote.others (.deleteLog s.generation number) (by simpa using own)).symm.trans held
      refine (logged.witnessed _ ⟨nonzero, number, log, older, rfl⟩).imp_right
        (.imp_right fun ⟨id, killed⟩ => ⟨id, ?_⟩)
      have outside : id ∉ ids := fun inside => by
        have alive := mortal.alive id inside
        simp [isKilled, killedAt, killed] at alive
      exact (lookup_buried ids stamp s.tombstones id).trans ((if_neg outside).trans killed)
  · obtain ⟨writer, base, holds, start, found⟩ := logged.log.file
    exact ⟨⟨writer, base, holds, start, (wrote.others .wal (by simp)).trans found⟩, logged.log.rows,
      logged.log.shared⟩
  · intro bare base object held
    exact logged.leftover bare base object ((wrote.others _ (by simp)).symm.trans held)

theorem Held.killing {w' : World F} {ids : List Nat} {stamp superseding : Nat}
    (held : s.Held w.disk segments past flushed live) (mortal : s.Mortal ids)
    (wrote : s.Wrote ⟨ids, stamp, superseding⟩ w w')
    (new : s.Full → superseding ≠ 0 →
      Witnessed segments (s.killing ids stamp).tombstones live superseding) :
    (s.killing ids stamp).Held w'.disk segments past flushed live where
  sound := held.sound.killing mortal wrote
  logged full :=
    have own : s.Full := ⟨full.persistent, full.walSync, full.logs⟩
    (held.logged own).killing mortal full.persistent wrote (new own)

/-- A consumed coordinate is a matter of the axis alone. -/
theorem Sound.consume {disk : Disk F} (sound : s.Sound disk segments past) :
    (s.consumeSequence s.rows).Sound disk segments past where
  writable := sound.writable
  keyed := sound.keyed
  threshold := sound.threshold
  bufferSchema := sound.bufferSchema
  bufferKey := sound.bufferKey
  axis := consume_axis sound.axis
  slots := sound.slots
  segmentsOk := sound.segmentsOk
  covers := sound.covers
  below birth member := by
    rw [consume_births sound.axis] at member
    rw [consume_watermark]
    exact Nat.lt_succ_of_lt (sound.below birth member)
  killed := sound.killed
  history := sound.history
  pastOk := sound.pastOk
  remembered := sound.remembered
  virtual none := by simp [consumeSequence] at none
  inOrder := sound.inOrder

theorem Held.consume {disk : Disk F} (held : s.Held disk segments past flushed live) :
    (s.consumeSequence s.rows).Held disk segments past flushed live where
  sound := held.sound.consume
  logged full := by
    have logged := held.logged ⟨full.persistent, full.walSync, full.logs⟩
    refine ⟨logged.layout, logged.killedDurable, logged.witnessed,
      ⟨logged.log.file, logged.log.rows, ?_⟩, logged.leftover, logged.ordinary⟩
    rw [consume_births held.sound.axis]
    exact logged.log.shared

/-! ### Tombstones -/

section Flushes

variable {s' : Store F} {segments' : List (Segment F)} {flushed' live' : List (Replayed F)}

theorem Flushes.frame (flushes : s.Flushes segments flushed live s' segments' flushed' live') :
    ∃ sections segments buffer bufferBase knowledge wal,
      s' = { s with sections, segments, buffer, bufferBase, knowledge, wal } ∧
      wal.isSome = s.wal.isSome := by
  cases flushes with
  | kept => exact ⟨_, _, _, _, _, _, rfl, rfl⟩
  | moved segment sections writer flushed' frozen filled next logs old =>
    exact ⟨_, _, _, _, _, _, rfl, logs⟩

theorem Flushes.ledger (flushes : s.Flushes segments flushed live s' segments' flushed' live') :
    s'.ledger segments' = s.ledger segments := by
  cases flushes with
  | kept => rfl
  | moved segment sections writer flushed' frozen filled next logs old =>
    simp [Store.ledger, flushedWith, Store.flushed, WriteBuffer.empty, frozen.rows]

theorem Flushes.fewer (flushes : s.Flushes segments flushed live s' segments' flushed' live')
    {w' : World F}
    (same : SameKills w w') : s'.pending w'.disk live' ⊆ s.pending w.disk live := by
  cases flushes with
  | kept =>
      exact pending_subset rfl (fun _ => (Committed.frame (same.2 s.generation)).mpr) fun _ => .inl
  | moved => exact List.nil_subset _

theorem Flushes.watermark (flushes : s.Flushes segments flushed live s' segments' flushed' live') :
    s'.watermark = s.watermark := by
  cases flushes with
  | kept => rfl
  | moved segment sections writer flushed' frozen filled next logs old =>
      exact @flushed_watermark F s segment

/-- A flush settles what was pending, or changes nothing. -/
theorem Flushes.settled (flushes : s.Flushes segments flushed live s' segments' flushed' live')
    {w' : World F}
    (same : SameKills w w') : s'.settledLedger w'.disk segments' live' =
      s.settledLedger w.disk segments live ∨
      s'.settledLedger w'.disk segments' live' = s.ledger segments := by
  have shows := flushes.ledger
  cases flushes with
  | kept => exact .inl (settledLedger_congr (same.2 s.generation))
  | moved segment sections writer flushed' frozen filled next logs old =>
    refine .inr ?_
    rw [← shows]
    exact ledger_empty rfl _

end Flushes

theorem Logged.settled_empty {disk : Disk F} (logged : s.Logged disk segments past flushed live)
    (empty : s.buffer.rows = []) : s.settledLedger disk segments live = s.ledger segments := by
  have rowless : unitRows (settled (committedOf disk s.generation) live) = [] := by
    obtain ⟨rest, same⟩ := settled_initial (committedOf disk s.generation) live
    have none := logged.log.rows.trans empty
    rw [← same, unitRows_append] at none
    exact (List.append_eq_nil_iff.mp none).1
  simp [settledLedger, ledger, rowless, empty]

/-- A store whose buffer is empty holds every row in a segment. -/
theorem Sound.durable {disk : Disk F} (sound : s.Sound disk segments past)
    (empty : s.buffer.rows = []) :
    s.bufferBase = s.rows := by
  have counted := sound.axis.counted
  have none : s.buffer.len = 0 := by rw [WriteBuffer.len, empty]; rfl
  omega

theorem wp_tombstone {ids : List Nat} {post : Except StorageError Nat → Store F → World F → Prop}
    (held : s.Held w.disk segments past flushed live)
    (safe : ∀ w', (s.Full →
      w'.disk.Recovers s.schema s.orderingKey (s.pending w.disk live) fun ledger =>
      ledger = s.ledger segments ∨ ledger = s.settledLedger w.disk segments live ∨
        ledger = (s.ledger segments).mark (s.newlyDead ids)) → crash w')
    (unchanged : ∀ e, (∀ f, e ≠ .io f) → post (.error e) s w)
    (idle : s.newlyDead ids = [] → post (.ok 0) s w)
    (failed : ∀ s' w' segments' flushed' live', SameKills w w' → WriteFails allow w ∨
      KillFails allow w →
      s.Flushes segments flushed live s' segments' flushed' live' →
      s'.Held w'.disk segments' past flushed' live' →
      post (.error (.io (.backend .write))) s' w')
    (stranded : ∀ s' w', w.trace <+: w'.trace → OpenFails allow w →
      (s.Full → w'.disk.Recovers s.schema s.orderingKey (s.pending w.disk live)
      (· = s.ledger segments)) →
      post (.error (.io (.backend .openLog))) s' w')
    (done : ∀ s' w' segments' flushed' live', s.newlyDead ids ≠ [] → w.trace <+: w'.trace →
      s.Flushes segments flushed live s' segments' flushed' live' →
      s'.Mortal (s.newlyDead ids) → (s.persistent = false → s' = s) →
      ((s'.killing (s.newlyDead ids) s.watermark).consumeSequence s'.rows).Held w'.disk segments'
      past flushed' live' →
      (s.Full → s'.buffer.rows = []) →
      post (.ok (s.newlyDead ids).length)
        ((s'.killing (s.newlyDead ids) s.watermark).consumeSequence s'.rows) w') :
    Fallible.wp backend allow crash (tombstone ids) post s w := by
  simp only [tombstone, Fallible.wp_bind, wp_refuseReadOnly held.sound.writable, Fallible.wp_read]
  cases range : ids.find? fun id => decide (s.rows ≤ id) with
  | some bad => exact unchanged _ (by simp)
  | none =>
    have inside : ∀ id ∈ ids, id < s.rows := by simpa using range
    simp only
    split
    · next none => exact idle (List.isEmpty_iff.mp none)
    · next some =>
      have newly : s.newlyDead ids ≠ [] := by simpa using some
      -- Once the flush is done, the kill is its delete log.
      have kill (s' : Store F) (w' : World F) (segments' : List (Segment F))
        (flushed' live' : List (Replayed F))
          (same : SameKills w w')
            (flushes : s.Flushes segments flushed live s' segments' flushed' live')
          (held' : s'.Held w'.disk segments' past flushed' live')
            (memory : s.persistent = false → s' = s)
          (durable : s.persistent = true → s'.buffer.rows = []) :
          Fallible.wp backend allow crash (do
            let store ← Fallible.read
            let stamp := store.watermark
            commitKills (s.newlyDead ids) stamp 0
            Fallible.update fun store => (store.bury (s.newlyDead ids) stamp).consumeSequence store.rows
            return (s.newlyDead ids).length) post s' w' := by
        have shows := flushes.ledger
        have mark := flushes.watermark
        obtain ⟨sections, slots, buffer, bufferBase, knowledge, wal, frame, logs⟩ := flushes.frame
        have mortal : s'.Mortal (s.newlyDead ids) := by
          refine ⟨fun id member => ?_, fun id member => ?_, fun stored id member => ?_,
            newlyDead_ascending ids⟩
          · subst frame
            exact (mem_newlyDead.mp member).2
          · subst frame
            exact inside id (mem_newlyDead.mp member).1
          · have bound := held'.sound.durable (durable (by subst frame; exact stored))
            rw [bound]
            subst frame
            exact inside id (mem_newlyDead.mp member).1
        have full' (full : s.Full) : s'.Full := by
          subst frame
          exact ⟨full.persistent, full.walSync, logs ▸ full.logs⟩
        have key : s'.schema = s.schema ∧ s'.orderingKey = s.orderingKey := by
          subst frame
          exact ⟨rfl, rfl⟩
        have settles (full : s.Full) : s'.settledLedger w'.disk segments' live' = s.ledger segments :=
          ((held'.logged (full' full)).settled_empty (durable full.persistent)).trans shows
        simp only [Fallible.wp_bind, Fallible.wp_read, Fallible.wp_update]
        refine wp_commitKills (safe w' fun full => ?_) ?_ ?_
        · rw [← key.1, ← key.2]
          refine Disk.Recovers.widen ?_ (flushes.fewer same)
          exact (held'.logged (full' full)).recovers held'.sound (.inl (settles full))
        · intro w'' _ disk later fails
          exact failed s' w'' segments' flushed' live' ⟨same.1.trans later, fun g n => by
              rw [disk, same.2]⟩
            (.inr (fails.earlier same.1)) flushes (disk ▸ held')
        · intro w'' wrote
          have after := (held'.killing mortal wrote fun _ nonzero => (nonzero rfl).elim).consume
          rw [mark] at after ⊢
          refine done s' w'' segments' flushed' live' newly (same.1.trans wrote.later) flushes
            mortal memory after
            fun full => durable full.persistent
      simp only [Fallible.wp_bind, Fallible.wp_when]
      refine ⟨fun stored => ?_, fun memory => ?_⟩
      · refine wp_flushHeld held
            (fun w' recovers => safe w' fun full => (recovers full).mono fun ledger which =>
          which.imp_right .inl) (fun column _ _ => unchanged _ (by simp)) ?_ stranded ?_
        · exact fun s' w' segments' flushed' live' same fails flushes held' =>
            failed s' w' segments' flushed' live' same (.inl fails) flushes held'
        · intro s' w' segments' flushed' live' same _ flushes held' empty
          have killed := kill s' w' segments' flushed' live' same flushes held'
            (fun memory => by simp [stored] at memory) fun _ => empty
          simpa only [Fallible.wp_bind] using killed
      · have killed := kill s w segments flushed live (.refl w) .kept held (fun _ => rfl)
          fun stored => by simp [memory] at stored
        simpa only [Fallible.wp_bind] using killed

end Store

end TallyDB
