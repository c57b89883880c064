import TallyDB.StorageLite.Kill

/-!
# Superseding rows

A supersession logs a bracket of replacements and commits with one delete log. A bracket cut
short replays nothing of itself, a whole one at the log's end replays where it committed.
-/

namespace TallyDB

open Crash

variable {F : Type} [F64 F] {allow : World F → Call F → Outcome → Prop} {crash : World F → Prop}
variable {s : Store F} {w : World F} {segments past : List (Segment F)}
  {flushed live : List (Replayed F)}

omit [F64 F] in
theorem replayBirths_below (next : Nat) (units : List (Replayed F)) :
    next ≤ (replayBirths next units).2 ∧ ∀ birth ∈ (replayBirths next units).1,
        birth < (replayBirths next units).2 := by
  induction units generalizing next with
  | nil => simp [replayBirths]
  | cons unit units ih =>
    have first : next ≤ (unit.births next).2 ∧ ∀ birth ∈ (unit.births next).1,
        birth < (unit.births next).2 := by
      cases unit with
      | row cells => simp [Replayed.births]
      | supersession sequence rows =>
        cases rows with
        | nil => simp [Replayed.births]
        | cons cells rows =>
          refine ⟨by simp [Replayed.births], fun birth member => ?_⟩
          obtain rfl := List.eq_of_mem_replicate member
          simp [Replayed.births]
    have later := ih (unit.births next).2
    refine ⟨first.1.trans later.1, fun birth member => ?_⟩
    rcases List.mem_append.mp member with own | rest
    · exact Nat.lt_of_lt_of_le (first.2 birth own) later.1
    · exact later.2 birth rest

namespace Store

theorem Sound.replays {disk : Disk F} {units : List (Replayed F)} {taken : Store F}
    (sound : s.Sound disk segments past) (replays : s.Replays units taken) :
    taken.Sound disk segments past := by
  have births := replays.births
  have watermark := replays.watermark
  have bufferSchema := replays.bufferSchema
  have bufferKey := replays.bufferKey
  have inOrder := replays.inOrder
  have axis := replays.axis
  have virtual := replays.virtual
  obtain ⟨buffer, knowledge, rows, same⟩ := replays.frame
  have counted : s.rows ≤ taken.rows := by
    have before := sound.axis.counted
    have after := axis.counted
    have grown := congrArg List.length replays.rows
    rw [List.length_append] at grown
    have base : taken.bufferBase = s.bufferBase := by rw [same]
    simp only [WriteBuffer.len] at before after
    omega
  have below : ∀ birth ∈ segments.flatMap Segment.births ++ taken.bufferBirths,
      birth < taken.watermark := by
    intro birth member
    obtain ⟨least, above⟩ := replayBirths_below s.watermark units
    rw [births, ← List.append_assoc] at member
    rw [watermark]
    rcases List.mem_append.mp member with old | new
    · exact Nat.lt_of_lt_of_le (sound.below birth old) least
    · exact above birth new
  subst same
  exact {
    writable := sound.writable
    keyed := sound.keyed
    threshold := sound.threshold
    bufferSchema := bufferSchema.trans sound.bufferSchema
    bufferKey := bufferKey.trans sound.bufferKey
    axis
    slots := sound.slots
    segmentsOk := sound.segmentsOk
    covers := sound.covers
    below
    killed := fun id dead => Nat.lt_of_lt_of_le (sound.killed id dead) counted
    history := sound.history
    pastOk := sound.pastOk
    remembered := sound.remembered
    virtual := fun none => sound.virtual (virtual none)
    inOrder := inOrder sound.inOrder }

/-! ### The bracket in the log -/

omit [F64 F] in
/-- What survives of a bracket: nothing, a torn part or all of it. -/
theorem bracket_prefix {sequence : Nat} {rows : List (Row F)} {kept : List (WalEntry F)}
    (part : kept <+: (Replayed.supersession sequence rows).entries) :
    kept = [] ∨ (∃ some : List (Row F), some.length < rows.length ∧
      kept = .supersession sequence rows.length :: some.map .row) ∨
      kept = (Replayed.supersession sequence rows).entries := by
  cases kept with
  | nil => exact .inl rfl
  | cons entry kept =>
    obtain ⟨rfl, inner⟩ := List.cons_prefix_cons.mp part
    obtain ⟨some, inside, rfl⟩ : ∃ some, some <+: rows ∧ kept = some.map .row := by
      have same := List.prefix_iff_eq_take.mp inner
      rw [← List.map_take] at same
      exact ⟨rows.take kept.length, List.take_prefix _ _, same⟩
    rcases Nat.lt_or_ge some.length rows.length with short | whole
    · exact .inr (.inl ⟨some, short, rfl⟩)
    · rw [inside.eq_of_length_le whole]
      exact .inr (.inr rfl)

theorem Sound.ledger_more {disk : Disk F} (sound : s.Sound disk segments past) (rows : List (Row F)) :
    ledgerOf (segments.flatMap Segment.rows ++ (s.buffer.rows ++ rows)) s.tombstones =
      s.ledger segments ++ rows.map (·, false) := by
  rw [← List.append_assoc, ledgerOf_append _ rows _ fun id dead => ?_]
  · rfl
  · rw [sound.rows_length]
    exact sound.killed id dead

/-- While a bracket is being logged, the ledger is as it was, unless its coordinate was
committed before. -/
theorem Logged.recovers_bracket {w' : World F} {p : Ledger F → Prop} {rows : List (Row F)}
    {sequence : Nat}
    (logged : s.Logged w.disk segments past flushed live) (sound : s.Sound w.disk segments past)
    (grounded : segments ≠ [])
    (same : ∀ name, name ≠ .wal → w'.disk.get name = w.disk.get name)
    (valid : ∀ row ∈ rows, s.schema.validate row = .ok ()) {writer base : Nat}
    (start : base + (unitRows flushed).length = s.bufferBase)
    {synced unsynced : List (WalEntry F)} {torn : Bool}
    (whole : synced ++ unsynced <+: (flushed ++ live).flatMap Replayed.entries ++
      (Replayed.supersession sequence rows).entries)
    (below : (flushed ++ live).flatMap Replayed.entries <+: synced)
    (log : LogState w'.disk writer s.generation base synced unsynced torn)
    (settles : p (s.settledLedger w.disk segments live)) (before : p (s.ledger segments))
    (early : Committed w.disk s.generation sequence → p (s.ledger segments ++ rows.map (·, false))) :
    w'.disk.Recovers s.schema s.orderingKey (s.pending w.disk live) p := by
  have laid := (logged.laid sound).frame same
  have which (sequence : Nat) : sequence ∈ committedOf w'.disk s.generation ↔
      sequence ∈ committedOf w.disk s.generation := by
    rw [mem_committedOf, mem_committedOf]
    exact Committed.frame fun number => same (.deleteLog s.generation number) (by simp)
  refine laid.recovers log start fun count => ?_
  obtain ⟨kept, split, part⟩ : ∃ kept,
    synced ++ unsynced.take count = (flushed ++ live).flatMap Replayed.entries ++ kept ∧
      kept <+: (Replayed.supersession sequence rows).entries := by
    obtain ⟨rest, rfl⟩ := below
    refine ⟨rest ++ unsynced.take count, by rw [List.append_assoc], ?_⟩
    have fewer : rest ++ unsynced.take count <+: rest ++ unsynced :=
      (List.prefix_append_right_inj rest).mpr (List.take_prefix _ _)
    rw [List.append_assoc] at whole
    exact fewer.trans ((List.prefix_append_right_inj _).mp whole)
  rw [split]
  rcases bracket_prefix part with rfl | ⟨some, short, rfl⟩ | rfl
  · have lands := logged.lands (p := p) (c := committedOf w'.disk s.generation) sound []
      (fun _ => by simp [Ordinary])
      (by simp) (fun unit member => counts_or_pending (by simpa using mem_of_settled member) which)
      (fun sequence member => mem_committedOf.mp ((which sequence).mp member))
      (by rw [List.append_nil, settled_congr which]; exact settles)
    rw [List.append_nil] at lands ⊢
    exact ⟨_, lands⟩
  · -- A torn bracket drops itself and keeps what is before it.
    refine ⟨live, ?_, fun bare => (grounded bare).elim, logged.log.rows ▸ sound.valid,
      fun unit member => counts_or_pending member which,
      fun sequence member =>
      logged.witnessed sequence (mem_committedOf.mp ((which sequence).mp member)),
      logged.log.rows ▸ before⟩
    rw [resolve_append (by simp), resolve_torn short, List.append_nil]
    exact skipFlushed_boundary flushed live
  · have lands := logged.lands (p := p) (c := committedOf w'.disk s.generation) sound
      [.supersession sequence rows]
      (fun bare => (grounded bare).elim) (by simpa [Replayed.rows] using valid)
      (fun unit member => (settled_within member).elim .inl fun old => counts_or_pending old which)
      (fun sequence member => mem_committedOf.mp ((which sequence).mp member)) (by
        rw [settled_concat]
        split
        · next counts =>
          rw [unitRows_append, logged.log.rows]
          refine (sound.ledger_more _).symm ▸ ?_
          have committed : sequence ∈ committedOf w'.disk s.generation := counts
          simpa [Replayed.rows] using early (mem_committedOf.mp ((which sequence).mp committed))
        · exact logged.log.rows ▸ before)
    rw [← List.append_assoc, List.flatMap_append, List.flatMap_singleton] at lands
    exact ⟨_, lands⟩

/-- The store once its replacements are logged and taken. -/
theorem Held.superseding {w' : World F} {rows : List (Row F)} {sequence : Nat} {taken : Store F}
    (held : s.Held w.disk segments past flushed live) (grounded : s.Full → segments ≠ [])
    (replays : s.Replays [Replayed.supersession sequence rows] taken)
    (only : LogOnly w w') {writer base : Nat} (place : s.Full → s.wal = some writer ∧
      base + (unitRows flushed).length = s.bufferBase ∧ LogState w'.disk writer s.generation base
        ((flushed ++ live).flatMap Replayed.entries ++
        (Replayed.supersession sequence rows).entries) [] false) :
    taken.Held w'.disk segments past flushed (live ++ [Replayed.supersession sequence rows]) where
  sound := (held.sound.logOnly only).replays replays
  logged full := by
    have births := replays.births
    have grown := replays.rows
    obtain ⟨buffer, knowledge, count, same⟩ := replays.frame
    have full : s.Full := by
      rw [same] at full
      exact ⟨full.persistent, full.walSync, full.logs⟩
    have logged := held.logged full
    obtain ⟨holds, start, log⟩ := place full
    have file : ∃ writer base, taken.wal = some writer ∧
      base + (unitRows flushed).length = taken.bufferBase ∧
        LogState w'.disk writer taken.generation base
          ((flushed ++ (live ++ [Replayed.supersession sequence rows])).flatMap Replayed.entries)
            [] false := by
      refine ⟨writer, base, by rw [same]; exact holds, by rw [same]; exact start, ?_⟩
      rw [← List.append_assoc, List.flatMap_append, List.flatMap_singleton, same]
      exact log
    have layout : Layout w'.disk taken.schema taken.orderingKey taken.generation
      taken.sections segments past
        taken.tombstones taken.deleteLogSequence := by
      rw [same]
      exact logged.layout.frame fun name inside => only.2 name (by rintro rfl; exact inside)
    have durable : ∀ id, taken.isKilled id → id < taken.bufferBase := by
      rw [same]
      exact logged.killedDurable
    have witnessed : ∀ own, Committed w'.disk taken.generation own →
        Witnessed segments taken.tombstones (live ++ [Replayed.supersession sequence rows]) own := by
      rw [same]
      exact fun own committed => (logged.witnessed own
        ((Committed.frame fun number => only.2 _ (by simp)).mp committed)).mono
        (List.subset_append_left _ _)
    refine ⟨layout, durable, witnessed, ⟨file, ?_, ?_⟩, fun bare => (grounded full bare).elim,
      fun bare => (grounded full bare).elim⟩
    · rw [grown, unitRows_append, logged.log.rows]
    · intro own some member filled
      rw [births]
      rcases List.mem_append.mp member with old | new
      · exact List.mem_append_left _ (logged.log.shared own some old filled)
      · obtain ⟨rfl, rfl⟩ : own = sequence ∧ some = rows := by simpa using new
        refine List.mem_append_right _ ?_
        simpa [replayBirths, Replayed.births] using filled

/-! ### Logging the replacements -/

/-- A call other than a delete log's write may fail somewhere after `w` with a bracket open. -/
def BracketFails (allow : World F → Call F → Outcome → Prop) (w : World F) : Prop :=
  ∃ (w' : World F) (call : Call F) (left : Leftover), w.trace <+: w'.trace ∧
    (∃ writer sequence count,
      (Call.append writer (.supersession sequence count), Outcome.ok) ∈ w'.trace) ∧
    (∀ generation number object, call ≠ .write (.deleteLog generation number) object) ∧
      call ≠ .elapsed ∧
    allow w' call (.err left)

def BracketOpen (w : World F) : Prop :=
  ∃ writer sequence count, (Call.append writer (.supersession sequence count), Outcome.ok) ∈ w.trace

omit [F64 F] in
theorem BracketOpen.later {w' : World F} (opened : BracketOpen w) (later : w.trace <+: w'.trace) :
    BracketOpen w' := by
  obtain ⟨writer, sequence, count, member⟩ := opened
  exact ⟨writer, sequence, count, later.subset member⟩

omit [F64 F] in
theorem BracketOpen.fails {w' : World F} (opened : BracketOpen w') (before : w.trace <+: w'.trace)
    (fails : AppendFails allow w' ∨ Spoils allow w' ∨ WriteFails allow w' ∨ OpenFails allow w') :
    BracketFails allow w := by
  rcases fails with ⟨v, writer, entry, later, allowed⟩ | ⟨v, later,
    ⟨writer, entry, left, -, allowed⟩ | ⟨writer, left, allowed⟩⟩ |
    ⟨v, name, object, left, later, other, allowed⟩ | ⟨v, name, left, later, allowed⟩
  · exact ⟨v, _, _, before.trans later, opened.later later, by simp, by simp, allowed⟩
  · exact ⟨v, _, _, before.trans later, opened.later later, by simp, by simp, allowed⟩
  · exact ⟨v, _, _, before.trans later, opened.later later, by simp, by simp, allowed⟩
  · refine ⟨v, _, _, before.trans later, opened.later later, fun generation number object' same =>
      ?_, by simp, allowed⟩
    exact other generation number (Call.write.inj same).1
  · exact ⟨v, _, _, before.trans later, opened.later later, by simp, by simp, allowed⟩

/-- What goes wrong between the bracket and its delete log. -/
def Breaks (allow : World F → Call F → Outcome → Prop) (s : Store F) (w : World F) : Prop :=
  Spoils allow w ∨ BracketFails allow w ∨ s.wal = none ∧ (WriteFails allow w ∨ OpenFails allow w)

omit [F64 F] in
theorem Breaks.earlier {s' : Store F} {w' : World F} (breaks : s'.Breaks allow w')
    (later : w.trace <+: w'.trace)
    (logs : s'.wal.isSome = s.wal.isSome) : s.Breaks allow w := by
  rcases breaks with spoils | ⟨v, call, left, after, rest⟩ | ⟨offline, fails⟩
  · exact .inl (spoils.earlier later)
  · exact .inr (.inl ⟨v, call, left, later.trans after, rest⟩)
  · have same : s.wal = none := by simpa [offline] using logs.symm
    exact .inr (.inr ⟨same, fails.imp (·.earlier later) (·.earlier later)⟩)

structure Bracketed (s : Store F) (w : World F) (flushed live : List (Replayed F)) (writer base : Nat)
    (rows done : List (Row F)) (s' : Store F) (w' : World F) : Prop where
  only : LogOnly w w'
  opened : s.wal.isSome → BracketOpen w'
  replays : s.Replays [.supersession s.watermark done] s'
  log : s.Full → ∃ synced unsynced, synced ++ unsynced = (flushed ++ live).flatMap Replayed.entries ++
      .supersession s.watermark rows.length :: done.map .row ∧
    (flushed ++ live).flatMap Replayed.entries <+: synced ∧
    LogState w'.disk writer s.generation base synced unsynced false

/-- What a disk may recover before the delete log. -/
def Uncommitted (s : Store F) (w : World F) (segments : List (Segment F)) (live : List (Replayed F))
    (rows : List (Row F)) (ledger : Ledger F) : Prop :=
  ledger = s.settledLedger w.disk segments live ∨ ledger = s.ledger segments ∨
    Committed w.disk s.generation s.watermark ∧ ledger = s.ledger segments ++ rows.map (·, false)

/-- The stores that replacements lead to. Without a log they are flushed at once. -/
inductive Takes (s : Store F) (rows : List (Row F)) (segments : List (Segment F))
    (flushed live : List (Replayed F)) :
    Store F → List (Segment F) → List (Replayed F) → List (Replayed F) → Prop where
  | logged (taken : Store F) (replays : s.Replays [.supersession s.watermark rows] taken) :
      Takes s rows segments flushed live taken segments flushed
        (live ++ [.supersession s.watermark rows])
  | flushed (taken s' : Store F) (segments' : List (Segment F)) (flushed' live' : List (Replayed F))
      (offline : s.wal = none) (replays : s.Replays [.supersession s.watermark rows] taken)
      (flushes : taken.Flushes segments flushed (live ++ [.supersession s.watermark rows]) s'
        segments' flushed' live') :
      Takes s rows segments flushed live s' segments' flushed' live'

section Bracket

variable {rows done : List (Row F)} {writer base : Nat} {s' : Store F} {w' : World F}

/-- The place of the log's file and of the flushed rows in it. -/
def Placed (s : Store F) (w : World F) (flushed live : List (Replayed F)) (writer base : Nat) : Prop :=
  s.Full → s.wal = some writer ∧ base + (unitRows flushed).length = s.bufferBase ∧
    LogState w.disk writer s.generation base ((flushed ++ live).flatMap Replayed.entries) [] false

theorem Held.placed (held : s.Held w.disk segments past flushed live) :
    ∃ writer base, s.Placed w flushed live writer base := by
  by_cases full : s.Full
  · obtain ⟨writer, base, holds⟩ := (held.logged full).log.file
    exact ⟨writer, base, fun _ => holds⟩
  · exact ⟨0, 0, fun full' => absurd full' full⟩

theorem Held.uncommitted (held : s.Held w.disk segments past flushed live)
    (grounded : s.Full → segments ≠ [])
    (place : s.Placed w flushed live writer base) (valid : ∀ row ∈ rows, s.schema.validate row = .ok ())
    (only : LogOnly w w') {synced unsynced : List (WalEntry F)} {torn : Bool}
    (whole : synced ++ unsynced <+: (flushed ++ live).flatMap Replayed.entries ++
      (Replayed.supersession s.watermark rows).entries)
    (below : (flushed ++ live).flatMap Replayed.entries <+: synced)
    (log : s.Full → LogState w'.disk writer s.generation base synced unsynced torn) (full : s.Full) :
    w'.disk.Recovers s.schema s.orderingKey (s.pending w.disk live)
      (s.Uncommitted w segments live rows) :=
  (held.logged full).recovers_bracket held.sound (grounded full) only.2 valid
    (place full).2.1 whole below (log full)
    (.inl rfl) (.inr (.inl rfl)) fun committed => .inr (.inr ⟨committed, rfl⟩)

omit [F64 F] in
theorem entries_initial {sequence : Nat} {rest : List (Row F)} (split : done ++ rest = rows) :
    (.supersession sequence rows.length :: done.map .row : List (WalEntry F)) <+:
      (Replayed.supersession sequence rows).entries := by
  rw [Replayed.entries, ← split, List.map_append]
  exact List.prefix_append _ _

theorem wp_supersedeRow {row : Row F} {rest : List (Row F)}
    {post : Except StorageError Unit → Store F → World F → Prop}
    (held : s.Held w.disk segments past flushed live) (grounded : s.Full → segments ≠ [])
    (place : s.Placed w flushed live writer base) (valid : ∀ row ∈ rows, s.schema.validate row = .ok ())
    (split : done ++ row :: rest = rows)
    (sofar : s.Bracketed w flushed live writer base rows done s' w')
    (safe : ∀ w', (s.Full →
      w'.disk.Recovers s.schema s.orderingKey (s.pending w.disk live)
      (s.Uncommitted w segments live rows)) → crash w')
    (broken : ∀ e s' w', w.trace <+: w'.trace → s.Breaks allow w →
      (s.Full → w'.disk.Recovers s.schema s.orderingKey (s.pending w.disk live)
      (s.Uncommitted w segments live rows)) →
      post (.error (.io (.backend e))) s' w')
    (next : ∀ s'' w'', s.Bracketed w flushed live writer base rows (done ++ [row]) s'' w'' →
      post (.ok ()) s'' w'') :
    Fallible.wp backend allow crash (supersedeRow s.watermark row) post s' w' := by
  have inside : (.supersession s.watermark rows.length :: done.map .row : List (WalEntry F)) ++
    [.row row] <+:
      (Replayed.supersession s.watermark rows).entries := by
    have longer := @entries_initial F rows (done ++ [row]) s.watermark rest (by simp [split])
    simpa using longer
  have checked : s'.buffer.validate row = .ok () := by
    have schema := sofar.replays.bufferSchema
    unfold WriteBuffer.validate
    rw [schema, held.sound.bufferSchema]
    exact valid row (by simp [← split])
  have fullOf (full : s'.Full) : s.Full := by
    obtain ⟨buffer, knowledge, count, same⟩ := sofar.replays.frame
    rw [same] at full
    exact ⟨full.persistent, full.walSync, full.logs⟩
  have generation : s'.generation = s.generation := by
    obtain ⟨buffer, knowledge, count, same⟩ := sofar.replays.frame
    rw [same]
  have wal : s'.wal = s.wal := by
    obtain ⟨buffer, knowledge, count, same⟩ := sofar.replays.frame
    rw [same]
  -- The records so far, where there is a log.
  obtain ⟨synced, unsynced, records, below, log⟩ : ∃ synced unsynced,
      synced ++ unsynced = (flushed ++ live).flatMap Replayed.entries ++
        .supersession s.watermark rows.length :: done.map .row ∧
      (flushed ++ live).flatMap Replayed.entries <+: synced ∧
      (s.Full → LogState w'.disk writer s.generation base synced unsynced false) := by
    by_cases full : s.Full
    · obtain ⟨synced, unsynced, records, below, log⟩ := sofar.log full
      exact ⟨synced, unsynced, records, below, fun _ => log⟩
    · exact ⟨_, [], List.append_nil _, List.prefix_append _ _, fun full' => absurd full' full⟩
  have partial_ : synced ++ unsynced <+: (flushed ++ live).flatMap Replayed.entries ++
      (Replayed.supersession s.watermark rows).entries := by
    rw [records]
    exact (List.prefix_append_right_inj _).mpr ((List.prefix_append _ _).trans inside)
  have longer : synced ++ (unsynced ++ [.row row]) <+: (flushed ++ live).flatMap Replayed.entries ++
      (Replayed.supersession s.watermark rows).entries := by
    rw [← List.append_assoc, records, List.append_assoc]
    exact (List.prefix_append_right_inj _).mpr inside
  have start (full : s'.Full) : s'.wal = some writer ∧
      LogState w'.disk writer s'.generation base synced unsynced false :=
    ⟨wal.trans (place (fullOf full)).1, generation ▸ log (fullOf full)⟩
  have back (full : s.Full) : s'.Full := by
    obtain ⟨buffer, knowledge, count, same⟩ := sofar.replays.frame
    rw [same]
    exact ⟨full.persistent, full.walSync, full.logs⟩
  have take (v : World F) (only : LogOnly w' v)
      (log' : s.Full → LogState v.disk writer s.generation base
        (synced ++ unsynced ++ [.row row]) [] false) :
      Fallible.wp backend allow crash (takeRowAt s.watermark row) post s' v := by
    refine (wp_takeRowAt checked).mpr
      (next _ v ⟨sofar.only.trans only, ?_, .supersession sofar.replays checked, ?_⟩)
    · exact fun logs => (sofar.opened logs).later only.1
    · intro full
      refine ⟨_, [], ?_, ?_, log' full⟩
      · rw [List.append_nil, records]
        simp
      · rw [List.append_assoc]
        exact below.trans (List.prefix_append _ _)
  simp only [supersedeRow, Fallible.wp_bind]
  cases logs : s.wal with
  | none =>
    have short (full : s.Full) : False := by
      have some := full.logs
      rw [logs] at some
      cases some
    simp only [walAppend, Fallible.wp_bind, Fallible.wp_read, wal.trans logs]
    exact take w' (.refl w') fun full => (short full).elim
  | some own =>
    have opened := sofar.opened (by simp [logs])
    have breaks {v : World F} (later : w'.trace <+: v.trace) (fails : AppendFails allow w' ∨
      Spoils allow w') :
        s.Breaks allow w :=
      .inr (.inl (opened.fails sofar.only.1 (fails.imp_right .inl)))
    refine wp_walAppend start ?_ ?_ ?_ ?_ ?_
    · exact safe w' (held.uncommitted grounded place valid sofar.only partial_ below log)
    · intro v only log'
      exact safe v (held.uncommitted grounded place valid (sofar.only.trans only) longer below
        fun full => generation ▸ log' (back full))
    · intro v later same fails
      refine broken .append s' v (sofar.only.1.trans later) (breaks later (.inl fails)) fun full => ?_
      rw [same]
      exact held.uncommitted grounded place valid sofar.only partial_ below log full
    · intro v e unsynced' torn _ only spoils which log'
      refine broken e s' v (sofar.only.1.trans only.1) (breaks only.1 (.inr spoils)) fun full => ?_
      refine held.uncommitted grounded place valid (sofar.only.trans only) ?_ below
        (fun full => generation ▸ log' (back full)) full
      rcases which with rfl | rfl
      · exact partial_
      · exact longer
    · exact fun v only log' => take v only fun full => generation ▸ log' (back full)

/-- The rule for the replacements as a whole: their bracket, their rows, their sync. -/
theorem wp_takeReplacements {post : Except StorageError Unit → Store F → World F → Prop}
    (held : s.Held w.disk segments past flushed live) (grounded : s.Full → segments ≠ [])
    (valid : ∀ row ∈ rows, s.schema.validate row = .ok ())
    (safe : ∀ w', (s.Full →
      w'.disk.Recovers s.schema s.orderingKey (s.pending w.disk live)
      (s.Uncommitted w segments live rows)) → crash w')
    (unlogged : ∀ w', SameKills w w' → AppendFails allow w → s.Held w'.disk segments past flushed live →
      post (.error (.io (.backend .append))) s w')
    (broken : ∀ e s' w', w.trace <+: w'.trace → s.Breaks allow w →
      (s.Full → w'.disk.Recovers s.schema s.orderingKey (s.pending w.disk live)
      (s.Uncommitted w segments live rows)) →
      post (.error (.io (.backend e))) s' w')
    (refused : ∀ s' w' column, s.wal = none → SameKills w w' →
      s.Replays [.supersession s.watermark rows] s' →
      s'.Held w'.disk segments past flushed (live ++ [.supersession s.watermark rows]) →
      s'.frozenBuffer = .error (.allNullKeyColumn column) →
      post (.error (.allNullKeyColumn column)) s' w')
    (done : ∀ s' w' segments' flushed' live', SameKills w w' →
      s.Takes rows segments flushed live s' segments' flushed' live' →
      s'.Held w'.disk segments' past flushed' live' →
      (s.wal.isSome → BracketOpen w') →
      (s.Full → w'.disk.Recovers s.schema s.orderingKey (s.pending w.disk live)
      (s.Uncommitted w segments live rows)) → post (.ok ()) s' w') :
    Fallible.wp backend allow crash (do
      openBracket s.watermark rows.length
      Fallible.each (supersedeRow s.watermark) rows
      settleReplacements) post s w := by
  obtain ⟨writer, base, place⟩ := held.placed
  have loop (w₁ : World F) (start : s.Bracketed w flushed live writer base rows [] s w₁) :
      Fallible.wp backend allow crash (do
        Fallible.each (supersedeRow s.watermark) rows
        settleReplacements) post s w₁ := by
    refine Fallible.wp_bind.mpr (Fallible.wp_each (fun rest s' w' => ∃ done, done ++ rest = rows ∧
      s.Bracketed w flushed live writer base rows done s' w') ⟨[], rfl, start⟩ ?_ ?_)
    · rintro row rest s' w' ⟨done, split, sofar⟩
      refine wp_supersedeRow held grounded place valid split sofar safe broken fun s'' w'' next => ?_
      exact ⟨done ++ [row], by simp [split], next⟩
    · rintro s' w' ⟨took, split, sofar⟩
      rw [List.append_nil] at split
      rw [split] at sofar
      have wal : s'.wal = s.wal ∧ s'.generation = s.generation := by
        obtain ⟨buffer, knowledge, count, same⟩ := sofar.replays.frame
        rw [same]
        exact ⟨rfl, rfl⟩
      have fullOf (full : s'.Full) : s.Full := by
        obtain ⟨buffer, knowledge, count, same⟩ := sofar.replays.frame
        rw [same] at full
        exact ⟨full.persistent, full.walSync, full.logs⟩
      have back (full : s.Full) : s'.Full := by
        obtain ⟨buffer, knowledge, count, same⟩ := sofar.replays.frame
        rw [same]
        exact ⟨full.persistent, full.walSync, full.logs⟩
      -- Once everything is synced, the replacements are units of the log.
      have finish (v : World F) (only : LogOnly w v)
        (log : s.Full → LogState v.disk writer s.generation base
          ((flushed ++ live).flatMap Replayed.entries ++
          (Replayed.supersession s.watermark rows).entries) [] false) :
          s'.Held v.disk segments past flushed (live ++ [.supersession s.watermark rows]) ∧
            (s.Full → v.disk.Recovers s.schema s.orderingKey (s.pending w.disk live)
              (s.Uncommitted w segments live rows)) := by
        refine ⟨held.superseding grounded sofar.replays only fun full =>
          ⟨(place full).1, (place full).2.1, log full⟩, ?_⟩
        refine held.uncommitted grounded place valid only ?_ (List.prefix_append _ _) log
        exact (List.append_nil _).symm ▸ List.prefix_rfl
      simp only [settleReplacements, Fallible.wp_bind, Fallible.wp_read, Fallible.wp_when]
      refine ⟨fun stored => ?_, fun memory => ?_⟩
      · cases logs : s.wal with
        | some own =>
          obtain ⟨synced, unsynced, records, below, log⟩ : ∃ synced unsynced,
              synced ++ unsynced = (flushed ++ live).flatMap Replayed.entries ++
                .supersession s.watermark rows.length :: rows.map .row ∧
              (flushed ++ live).flatMap Replayed.entries <+: synced ∧
              (s.Full → LogState w'.disk writer s.generation base synced unsynced false) := by
            by_cases full : s.Full
            · obtain ⟨synced, unsynced, records, below, log⟩ := sofar.log full
              exact ⟨synced, unsynced, records, below, fun _ => log⟩
            · exact ⟨_, [], List.append_nil _, List.prefix_append _ _, fun full' => absurd full' full⟩
          have partial_ : synced ++ unsynced <+: (flushed ++ live).flatMap Replayed.entries ++
              (Replayed.supersession s.watermark rows).entries := by
            rw [records]
            exact List.prefix_rfl
          have same (full : s.Full) : own = writer := Option.some.inj (logs.symm.trans (place full).1)
          have log' (full : s'.Full) : LogState w'.disk own s'.generation base synced unsynced false :=
            wal.2 ▸ same (fullOf full) ▸ log (fullOf full)
          have opened := sofar.opened (by simp [logs])
          rw [wal.1, logs]
          refine wp_syncLog log'
            (safe w' (held.uncommitted grounded place valid sofar.only partial_ below log)) ?_ ?_
          · intro v only spoils log'
            refine broken .sync s' v (sofar.only.1.trans only.1)
              (.inr (.inl (opened.fails sofar.only.1 (.inr (.inl spoils)))))
              (held.uncommitted grounded place valid (sofar.only.trans only) partial_ below fun full =>
                wal.2 ▸ same full ▸ log' (back full))
          · intro v only log'
            obtain ⟨held', recovers⟩ := finish v (sofar.only.trans only) fun full => by
              have log := log' (back full)
              rw [records, wal.2, same full] at log
              exact log
            exact done s' v segments flushed _ (.ofLogOnly (sofar.only.trans only))
              (.logged s' sofar.replays) held'
              (fun _ => opened.later only.1) recovers
        | none =>
          have short (full : s.Full) : False := by
            have some := full.logs
            rw [logs] at some
            cases some
          obtain ⟨held', recovers⟩ := finish w' sofar.only fun full => (short full).elim
          have kills : SameKills w w' := .ofLogOnly sofar.only
          rw [wal.1, logs]
          simp only [Fallible.wp_when, Bool.not_eq_true', Bool.not_eq_false']
          refine ⟨fun _ => ?_, fun _ => ?_⟩
          · refine wp_flushHeld held' (fun v _ => safe v fun full => (short full).elim) ?_ ?_ ?_ ?_
            · exact fun column _ frozen => refused s' w' column logs kills sofar.replays held' frozen
            · intro s'' v segments' flushed' live' same fails _ _
              exact broken .write s'' v (kills.1.trans same.1)
                (.inr (.inr ⟨logs, .inl (fails.earlier kills.1)⟩))
                fun full => (short full).elim
            · intro s'' v later fails _
              exact broken .openLog s'' v (kills.1.trans later)
                (.inr (.inr ⟨logs, .inr (fails.earlier kills.1)⟩))
                fun full => (short full).elim
            · intro s'' v segments' flushed' live' same _ flushes held'' _
              exact done s'' v segments' flushed' live' (kills.trans same)
                (.flushed s' s'' segments' flushed' live' logs sofar.replays flushes) held''
                (fun some => by simp [logs] at some) fun full => (short full).elim
          · exact done s' w' segments flushed _ kills (.logged s' sofar.replays) held'
              sofar.opened recovers
      · have short (full : s.Full) : False := by
          have stored := (back full).persistent
          rw [memory] at stored
          cases stored
        obtain ⟨held', recovers⟩ := finish w' sofar.only fun full => (short full).elim
        exact done s' w' segments flushed _ (.ofLogOnly sofar.only) (.logged s' sofar.replays) held'
          sofar.opened recovers
  have fresh (w₁ : World F) (only : LogOnly w w₁) (opened : s.wal.isSome → BracketOpen w₁)
      (log : s.Full → ∃ synced unsynced,
        synced ++ unsynced = (flushed ++ live).flatMap Replayed.entries ++
        .supersession s.watermark rows.length :: ([] : List (Row F)).map .row ∧
        (flushed ++ live).flatMap Replayed.entries <+: synced ∧
        LogState w₁.disk writer s.generation base synced unsynced false) :
      s.Bracketed w flushed live writer base rows [] s w₁ := by
    refine ⟨only, opened, ⟨⟨_, _, _, rfl⟩, rfl, rfl, held.sound.axis, ?_, ?_, ?_, id, id⟩, log⟩ <;>
      simp [unitRows, Replayed.rows, replayBirths, Replayed.births]
  refine Fallible.wp_bind.mpr ?_
  simp only [openBracket, Fallible.wp_bind, Fallible.wp_read]
  cases logs : s.wal with
  | none =>
    have short (full : s.Full) : False := by
      have some := full.logs
      rw [logs] at some
      cases some
    have rest := loop w (fresh w (.refl w) (by simp [logs]) fun full => (short full).elim)
    simpa only [Fallible.wp_bind, Fallible.wp_pure] using rest
  | some own =>
    have same (full : s.Full) : own = writer := Option.some.inj (logs.symm.trans (place full).1)
    have log (full : s.Full) : LogState w.disk own s.generation base
        ((flushed ++ live).flatMap Replayed.entries) [] false :=
      same full ▸ (place full).2.2
    have heading : (flushed ++ live).flatMap Replayed.entries ++
      [.supersession s.watermark rows.length] <+:
        (flushed ++ live).flatMap Replayed.entries ++
          (Replayed.supersession s.watermark rows).entries :=
      (List.prefix_append_right_inj _).mpr (List.prefix_append [_] _)
    refine Io.wp_append.mpr ⟨?_, fun _ => ?_, fun left allowed => ?_⟩
    · refine safe w (held.uncommitted grounded place valid (.refl w) ?_ List.prefix_rfl fun full =>
        same full ▸ log full)
      rw [List.append_nil]
      exact List.prefix_append _ _
    · have only := LogOnly.append w own (WalEntry.supersession s.watermark rows.length) .ok
      have opened : BracketOpen (w.did (.append own (.supersession s.watermark rows.length)) .ok) :=
        ⟨own, s.watermark, rows.length, by simp [World.did]⟩
      exact Fallible.wp_bind.mp (loop _ (fresh _ only (fun _ => opened) fun full =>
        ⟨_, _, rfl, List.prefix_rfl, same full ▸ (log full).append _⟩))
    · have only := LogOnly.append w own (WalEntry.supersession s.watermark rows.length) (.err left)
      have spoils (some : left ≠ .nothing) : s.Breaks allow w :=
        .inl ⟨w, List.prefix_rfl, .inl ⟨own, _, left, some, allowed⟩⟩
      cases left with
      | nothing =>
          exact unlogged _ ⟨World.trace_did w _ _, fun _ _ => rfl⟩
            ⟨w, own, _, List.prefix_rfl, allowed⟩ held
      | part =>
        have tear (full : s.Full) :
          LogState (w.did (.append own (.supersession s.watermark rows.length)) (.err .part)).disk
            writer s.generation base ((flushed ++ live).flatMap Replayed.entries) [] true :=
          same full ▸ (log full).tear
        refine broken .append s _ only.1 (spoils (by simp))
          (held.uncommitted grounded place valid only ?_ List.prefix_rfl tear)
        rw [List.append_nil]
        exact List.prefix_append _ _
      | whole =>
        have whole (full : s.Full) :
          LogState (w.did (.append own (.supersession s.watermark rows.length)) (.err .whole)).disk
            writer s.generation base ((flushed ++ live).flatMap Replayed.entries)
              [.supersession s.watermark rows.length] false :=
          same full ▸ (log full).append _
        exact broken .append s _ only.1 (spoils (by simp))
          (held.uncommitted grounded place valid only heading List.prefix_rfl whole)

end Bracket

/-! ### The supersession as a whole -/

omit [F64 F] in
theorem validateRows_ok {buffer : WriteBuffer F} {rows : List (Row F)}
    (checked : validateRows buffer rows = .ok ()) :
    ∀ row ∈ rows, buffer.validate row = .ok () := by
  induction rows with
  | nil => simp
  | cons first rest ih =>
    cases head : buffer.validate first with
    | error e =>
      rw [validateRows, head] at checked
      cases checked
    | ok _ =>
      rw [validateRows, head] at checked
      intro row member
      rcases List.mem_cons.mp member with rfl | later
      · exact head
      · exact ih checked row later

omit [F64 F] in
theorem validateRows_error {buffer : WriteBuffer F} {rows : List (Row F)} {e : StorageError}
    (refused : validateRows buffer rows = .error e) (f : IoError) : e ≠ .io f := by
  induction rows with
  | nil => cases refused
  | cons first rest ih =>
    cases head : buffer.validate first with
    | error other =>
      rw [validateRows, head] at refused
      have same : other = e := Except.error.inj refused
      exact same ▸ Schema.validate_error head f
    | ok _ =>
      rw [validateRows, head] at refused
      exact ih refused

section Supersede

variable {rows : List (Row F)} {s' : Store F} {w' : World F} {segments' : List (Segment F)}
variable {flushed' live' : List (Replayed F)}

theorem Takes.frame (takes : s.Takes rows segments flushed live s' segments' flushed' live') :
    ∃ sections segments buffer bufferBase knowledge wal rows,
      s' = { s with sections, segments, buffer, bufferBase, knowledge, wal, rows } ∧
      wal.isSome = s.wal.isSome := by
  cases takes with
  | logged _ replays =>
    obtain ⟨buffer, knowledge, rows, same⟩ := replays.frame
    exact ⟨_, _, _, _, _, _, _, same, rfl⟩
  | flushed taken _ _ _ _ offline replays flushes =>
    obtain ⟨buffer, knowledge, rows, same⟩ := replays.frame
    obtain ⟨sections, slots, buffer', bufferBase, knowledge', wal, same', logs⟩ := flushes.frame
    subst same
    exact ⟨_, _, _, _, _, _, _, same', logs⟩

theorem Takes.ledger {disk : Disk F}
    (takes : s.Takes rows segments flushed live s' segments' flushed' live')
    (sound : s.Sound disk segments past) : s'.ledger segments' = s.ledger segments ++ rows.map
      (·, false) := by
  have shows {taken : Store F} (replays : s.Replays [.supersession s.watermark rows] taken) :
      taken.ledger segments = s.ledger segments ++ rows.map (·, false) := by
    have grown := replays.rows
    obtain ⟨buffer, knowledge, count, same⟩ := replays.frame
    have kills : taken.tombstones = s.tombstones := by rw [same]
    rw [← sound.ledger_more, Store.ledger, grown, kills]
    simp [unitRows, Replayed.rows]
  cases takes with
  | logged _ replays => exact shows replays
  | flushed taken _ _ _ _ offline replays flushes => exact flushes.ledger.trans (shows replays)

/-- Taking replacements moves the buffer's base at most up, and adds their rows. -/
theorem Takes.grows {disk other : Disk F}
    (takes : s.Takes rows segments flushed live s' segments' flushed' live')
    (sound : s.Sound disk segments past) (sound' : s'.Sound other segments' past) :
    s.bufferBase ≤ s'.bufferBase ∧ s'.rows = s.rows + rows.length := by
  have counted := sound.axis.counted
  have counted' := sound'.axis.counted
  have taken {taken : Store F} (replays : s.Replays [.supersession s.watermark rows] taken) :
      taken.bufferBase = s.bufferBase ∧ taken.rows = s.rows + rows.length := by
    have axis := replays.axis.counted
    have grown := congrArg List.length replays.rows
    obtain ⟨buffer, knowledge, count, same⟩ := replays.frame
    have base : taken.bufferBase = s.bufferBase := by rw [same]
    simp only [unitRows, List.flatMap_singleton, Replayed.rows, List.length_append] at grown
    simp only [WriteBuffer.len] at counted axis
    exact ⟨base, by omega⟩
  cases takes with
  | logged _ replays => exact ⟨(taken replays).1.ge, (taken replays).2⟩
  | flushed before _ _ _ _ offline replays flushes =>
    obtain ⟨base, count⟩ := taken replays
    cases flushes with
    | kept => exact ⟨base.ge, count⟩
    | moved segment sections writer flushed' frozen filled next logs old =>
      have rows : (before.flushedWith segment sections writer).rows = before.rows := rfl
      have last : (before.flushedWith segment sections writer).bufferBase = before.rows := rfl
      omega

/-- A supersession up to its delete log: a flush where a victim is buffered, then the
replacements. -/
inductive Stages (s : Store F) (w : World F) (rows : List (Row F)) (ids : List Nat)
    (segments : List (Segment F))
    (flushed live : List (Replayed F)) :
    Store F → World F → List (Segment F) → List (Replayed F) → List (Replayed F) → Prop where
  | intro (first taken : Store F) (w' : World F) (segments₁ segments₂ : List (Segment F))
      (flushed₁ live₁ flushed₂ live₂ : List (Replayed F)) (same : SameKills w w')
      (flushes : s.Flushes segments flushed live first segments₁ flushed₁ live₁)
      (early : first = s ∧ segments₁ = segments ∧ flushed₁ = flushed ∧ live₁ = live ∨ ∃ id ∈ ids,
        s.bufferBase ≤ id)
      (takes : first.Takes rows segments₁ flushed₁ live₁ taken segments₂ flushed₂ live₂) :
      Stages s w rows ids segments flushed live taken w' segments₂ flushed₂ live₂

structure Commits (s : Store F) (w : World F) (rows : List (Row F)) (ids : List Nat)
    (segments past : List (Segment F))
    (flushed live : List (Replayed F)) (s' : Store F) (w' : World F) (segments' : List (Segment F))
    (flushed' live' : List (Replayed F)) : Prop where
  stages : ∃ taken w₁, s.Stages w rows ids segments flushed live taken w₁ segments' flushed' live' ∧
    taken.Mortal ids ∧ taken.Wrote ⟨ids, s.watermark, s.watermark⟩ w₁ w' ∧
      s' = taken.killing ids s.watermark
  held : s'.Held w'.disk segments' past flushed' live'
  later : w.trace <+: w'.trace
  opened : s.wal.isSome → BracketOpen w'
  settles : s.Full → s'.settledLedger w'.disk segments' live' = s'.ledger segments'
  ledger : s'.ledger segments' = (s.ledger segments).mark ids ++ rows.map (·, false)
  fewer : s.Full → s'.pending w'.disk live' ⊆ s.pending w.disk live

/-- What a disk may recover while a supersession is under way. -/
def Between (s : Store F) (w : World F) (segments : List (Segment F)) (live : List (Replayed F))
    (rows : List (Row F)) (ids : List Nat) (ledger : Ledger F) : Prop :=
  s.Uncommitted w segments live rows ledger ∨
    ledger = (s.ledger segments).mark ids ++ rows.map (·, false)

theorem Sound.ledger_length {disk : Disk F} (sound : s.Sound disk segments past) :
    (s.ledger segments).length = s.rows := by
  rw [← sound.rows_length, ledger, ledgerOf, List.length_map, List.length_zipIdx]

theorem Sound.spent {disk : Disk F} (sound : s.Sound disk segments past) (filled : 0 < s.rows) :
    s.watermark ≠ 0 := by
  have count : (segments.flatMap Segment.births ++ s.bufferBirths).length = s.rows := by
    rw [← sound.rows_length, List.length_append, List.length_append, bufferBirths_length sound.axis,
      List.length_flatMap, List.length_flatMap]
    congr 3
    exact funext fun segment => by rw [Segment.births_length, TallyDB.rows_length]
  obtain ⟨birth, member⟩ := List.exists_mem_of_length_pos (by rw [count]; exact filled)
  have above := sound.below birth member
  omega

/-- What is uncommitted after a flush was so before it. -/
theorem Uncommitted.ofFlushes {ledger : Ledger F}
    (flushes : s.Flushes segments flushed live s' segments' flushed' live')
    (same : SameKills w w') (which : s'.Uncommitted w' segments' live' rows ledger) :
    s.Uncommitted w segments live rows ledger := by
  rcases which with settles | shows | ⟨early, shows⟩
  · rcases flushes.settled same with old | whole
    · exact .inl (settles.trans old)
    · exact .inr (.inl (settles.trans whole))
  · exact .inr (.inl (shows.trans flushes.ledger))
  · have mark := flushes.watermark
    have generation : s'.generation = s.generation := by
      obtain ⟨sections, slots, buffer, bufferBase, knowledge, wal, frame, -⟩ := flushes.frame
      rw [frame]
    rw [mark, generation] at early
    exact .inr (.inr ⟨(Committed.frame (same.2 s.generation)).mp early, shows.trans (by
        rw [flushes.ledger])⟩)

variable {post : Except StorageError Nat → Store F → World F → Prop} {ids : List Nat}

/-- A delete log that commits the replacements leaves no more pending than there was. -/
theorem Stages.fewer {taken : Store F} {w₁ : World F} {stamp : Nat}
    (stages : s.Stages w rows ids segments flushed live taken w₁ segments' flushed' live')
    (held : taken.Held w₁.disk segments' past flushed' live')
    (wrote : taken.Wrote ⟨ids, stamp, s.watermark⟩ w₁ w')
    (full : taken.Full) (logs : s.wal.isSome) (spent : s.watermark ≠ 0) :
    (taken.killing ids stamp).pending w'.disk live' ⊆ s.pending w.disk live := by
  cases stages with
  | intro first _ _ segments₁ _ flushed₁ live₁ _ _ same flushes early takes =>
    have mark := flushes.watermark
    have wals : first.wal.isSome = s.wal.isSome := by
      obtain ⟨sections, slots, buffer, bufferBase, knowledge, wal, frame, own⟩ := flushes.frame
      rw [frame]
      exact own
    have generation : taken.generation = s.generation := by
      obtain ⟨sections, slots, buffer, bufferBase, knowledge, wal, frame, -⟩ := flushes.frame
      obtain ⟨sections', slots', buffer', bufferBase', knowledge', wal', rows', frame', -⟩ :=
        takes.frame
      rw [frame', frame]
    have keeps (sequence : Nat) (committed : Committed w.disk s.generation sequence) :
        Committed w'.disk s.generation sequence := by
      obtain ⟨nonzero, number, log, found, sequenced⟩ :=
        (Committed.frame (same.2 s.generation)).mpr committed
      refine ⟨nonzero, number, log, (wrote.others _ fun own => ?_).trans found, sequenced⟩
      have below := ((held.logged full).layout.deleteLogs number _ (generation ▸ found)).1
      have equal := (ObjectName.deleteLog.inj own).2
      omega
    have committed : s.watermark ∈ committedOf w'.disk taken.generation :=
      mem_committedOf.mpr ⟨spent, taken.deleteLogSequence, _, wrote.written full.persistent, rfl⟩
    refine pending_subset generation keeps fun unit member => ?_
    cases takes with
    | logged _ replays =>
      rcases List.mem_append.mp member with old | new
      · cases flushes with
        | kept => exact .inl old
        | moved => cases old
      · obtain rfl := List.mem_singleton.mp new
        rw [mark]
        exact .inr committed
    | flushed _ _ _ _ _ offline =>
      rw [← wals, offline] at logs
      cases logs

/-- The ends of a supersession whose rows and victims are checked, each with what it leaves. -/
structure SupersessionEnds (s : Store F) (w : World F) (rows : List (Row F)) (ids : List Nat)
    (segments past : List (Segment F)) (flushed live : List (Replayed F))
    (allow : World F → Call F → Outcome → Prop) (crash : World F → Prop)
    (post : Except StorageError Nat → Store F → World F → Prop) : Prop where
  safe : ∀ w', (s.Full → w'.disk.Recovers s.schema s.orderingKey (s.pending w.disk live)
    (s.Between w segments live rows ids)) → crash w'
  unopened : ∀ e s' w' segments' flushed' live', SameKills w w' → WriteFails allow w ∨
      AppendFails allow w →
    s.Flushes segments flushed live s' segments' flushed' live' →
    s'.Held w'.disk segments' past flushed' live' → post (.error (.io (.backend e))) s' w'
  broken : ∀ e s' w', w.trace <+: w'.trace → OpenFails allow w ∨ s.Breaks allow w →
    (s.Full → w'.disk.Recovers s.schema s.orderingKey (s.pending w.disk live)
      (s.Uncommitted w segments live rows)) → post (.error (.io (.backend e))) s' w'
  offline : ∀ first s' w' segments' flushed' live' column, s.wal = none → SameKills w w' →
    s.Flushes segments flushed live first segments' flushed' live' →
    first.Replays [.supersession s.watermark rows] s' →
    s'.Held w'.disk segments' past flushed' (live' ++ [.supersession s.watermark rows]) →
    post (.error (.allNullKeyColumn column)) s' w'
  pending : ∀ taken w' segments' flushed' live',
    s.Stages w rows ids segments flushed live taken w' segments' flushed' live' →
    KillFails allow w → taken.persistent = true → taken.Held w'.disk segments' past flushed' live' →
    post (.error (.io (.backend .write))) taken w'
  refused : ∀ s' w' segments' flushed' live' column,
    s.Commits w rows ids segments past flushed live s' w' segments' flushed' live' →
    s'.segmentRows ≤ s'.buffer.len → s'.frozenBuffer = .error (.allNullKeyColumn column) →
    post (.error (.allNullKeyColumn column)) s' w'
  failed : ∀ committed w' segments' flushed' live' s'' w'' segments'' flushed'' live'',
    s.Commits w rows ids segments past flushed live committed w' segments' flushed' live' →
    SameKills w' w'' → BracketFails allow w ∨ s.wal = none ∧ WriteFails allow w →
    committed.Flushes segments' flushed' live' s'' segments'' flushed'' live'' →
    s''.Held w''.disk segments'' past flushed'' live'' →
    post (.error (.io (.backend .write))) s'' w''
  stranded : ∀ s' w', w.trace <+: w'.trace → OpenFails allow w →
    (s.Full → w'.disk.Recovers s.schema s.orderingKey (s.pending w.disk live)
      (· = (s.ledger segments).mark ids ++ rows.map (·, false))) →
    post (.error (.io (.backend .openLog))) s' w'
  done : ∀ committed w' segments' flushed' live' s'' w'' segments'' flushed'' live'',
    s.Commits w rows ids segments past flushed live committed w' segments' flushed' live' →
    SameKills w' w'' → committed.Flushes segments' flushed' live' s'' segments'' flushed'' live'' →
    s''.Held w''.disk segments'' past flushed'' live'' → post (.ok ids.length) s'' w''

/-- The rule for the end of a supersession: the delete log and the flush of a full buffer. -/
theorem wp_commitSupersede {taken : Store F} {w₁ : World F} {segments₂ : List (Segment F)}
    {flushed₂ live₂ : List (Replayed F)} (full : taken.Full ↔ s.Full)
    (stages : s.Stages w rows ids segments flushed live taken w₁ segments₂ flushed₂ live₂)
    (mortal : taken.Mortal ids) (held : taken.Held w₁.disk segments₂ past flushed₂ live₂)
    (key : taken.schema = s.schema ∧ taken.orderingKey = s.orderingKey)
    (opened : s.wal.isSome → BracketOpen w₁)
    (shows : taken.ledger segments₂ = s.ledger segments ++ rows.map (·, false))
    (inside : ∀ id ∈ ids, id < (s.ledger segments).length)
    (settles : s.Full → ∃ before, live₂ = before ++ [.supersession s.watermark rows])
    (some : ids ≠ [] ∨ rows ≠ []) (spent : s.watermark ≠ 0)
    (later : w.trace <+: w₁.trace)
    (ends : s.SupersessionEnds w rows ids segments past flushed live allow crash post)
    (before : s.Full →
      w₁.disk.Recovers s.schema s.orderingKey (s.pending w.disk live)
      (s.Uncommitted w segments live rows)) :
    Fallible.wp backend allow crash (do
      commitKills ids s.watermark s.watermark
      Fallible.update fun store => store.bury ids s.watermark
      flushIfFull
      return ids.length) post taken w₁ := by
  simp only [Fallible.wp_bind, Fallible.wp_update]
  refine wp_commitKills (ends.safe w₁ fun full => (before full).mono fun _ => .inl) ?_ ?_
  · intro w' stored disk after fails
    refine ends.pending taken w' segments₂ flushed₂ live₂ ?_ (fails.earlier later) stored (disk ▸ held)
    cases stages with
    | intro first _ _ segments₁ _ flushed₁ live₁ _ _ same flushes early takes =>
      exact .intro first taken w' segments₁ segments₂ flushed₁ live₁ flushed₂ live₂
        ⟨same.1.trans after, fun g n => by rw [disk, same.2]⟩ flushes early takes
  · intro w' wrote
    have after := later.trans wrote.later
    have witness (full' : s.Full) : Witnessed segments₂ (taken.killing ids s.watermark).tombstones
        live₂ s.watermark := by
      obtain ⟨before, rfl⟩ := settles full'
      by_cases filled : rows = []
      · obtain ⟨id, dead⟩ := List.exists_mem_of_ne_nil ids (some.resolve_right (not_not_intro filled))
        exact .inr (.inr ⟨id, (lookup_buried ids s.watermark taken.tombstones id).trans (if_pos dead)⟩)
      · exact .inr (.inl ⟨rows, filled, by simp⟩)
    have held' : (taken.killing ids s.watermark).Held w'.disk segments₂ past flushed₂ live₂ :=
      held.killing mortal wrote fun own _ => witness (full.mp own)
    have ledger : (taken.killing ids s.watermark).ledger segments₂ =
        (s.ledger segments).mark ids ++ rows.map (·, false) := by
      rw [ledger_killing, shows, Ledger.mark_append inside]
    have fullOf (full' : (taken.killing ids s.watermark).Full) : s.Full :=
      full.mp ⟨full'.persistent, full'.walSync, full'.logs⟩
    have settled_ (full' : s.Full) : (taken.killing ids s.watermark).settledLedger w'.disk
      segments₂ live₂ =
        (taken.killing ids s.watermark).ledger segments₂ := by
      have own := full.mpr full'
      have logged := held'.logged ⟨own.persistent, own.walSync, own.logs⟩
      obtain ⟨before, rfl⟩ := settles full'
      have committed : s.watermark ∈ committedOf w'.disk taken.generation :=
        mem_committedOf.mpr ⟨spent, taken.deleteLogSequence, _, wrote.written own.persistent, rfl⟩
      have whole : settled (committedOf w'.disk taken.generation)
        (before ++ [.supersession s.watermark rows]) =
          before ++ [.supersession s.watermark rows] := by
        rw [settled_concat, if_pos (by exact committed)]
      unfold settledLedger Store.ledger
      rw [← logged.log.rows]
      exact congrArg (fun units => ledgerOf (segments₂.flatMap Segment.rows ++ unitRows units) _) whole
    have fewer (full' : s.Full) : (taken.killing ids s.watermark).pending w'.disk live₂ ⊆
        s.pending w.disk live :=
      stages.fewer held wrote (full.mpr full') full'.logs spent
    have commits : s.Commits w rows ids segments past flushed live (taken.killing ids s.watermark)
      w' segments₂ flushed₂
        live₂ := {
      stages := ⟨taken, w₁, stages, mortal, wrote, rfl⟩
      held := held'
      later := after
      opened := fun some => (opened some).later wrote.later
      settles := settled_
      ledger
      fewer }
    refine wp_flushIfFull held' ?_ ?_ ?_ ?_ ?_
    · intro v recovers
      refine ends.safe v fun full' => ?_
      have own := full.mpr full'
      rw [← key.1, ← key.2]
      refine ((recovers ⟨own.persistent, own.walSync, own.logs⟩).widen (fewer full')).mono
        fun which same => .inr ?_
      rcases same with whole | rest
      · exact whole.trans ledger
      · exact (rest.trans (settled_ full')).trans ledger
    · exact fun column filled frozen =>
        ends.refused _ w' segments₂ flushed₂ live₂ column commits filled frozen
    · intro s'' v segments'' flushed'' live'' same fails flushes held''
      refine ends.failed _ w' segments₂ flushed₂ live₂ s'' v segments'' flushed'' live'' commits same ?_
        flushes held''
      cases logs' : s.wal with
      | some own =>
          exact .inl ((commits.opened (by simp [logs'])).fails after (.inr (.inr (.inl fails))))
      | none => exact .inr ⟨rfl, fails.earlier after⟩
    · intro s'' v onward fails recovers
      refine ends.stranded s'' v (after.trans onward) (fails.earlier after) fun full' => ?_
      have own := full.mpr full'
      rw [← key.1, ← key.2, ← ledger]
      exact (recovers ⟨own.persistent, own.walSync, own.logs⟩).widen (fewer full')
    · exact fun s'' v segments'' flushed'' live'' same flushes held'' =>
        ends.done _ w' segments₂ flushed₂ live₂ s'' v segments'' flushed'' live'' commits same flushes
          held''

/-- The rule for a supersession from its bracket on, whatever the flush before it did. -/
theorem wp_supersedeBracketed {victims : List Nat} {first : Store F} {w₁ : World F}
    {segments₁ : List (Segment F)} {flushed₁ live₁ : List (Replayed F)}
    (sound : s.Sound w.disk segments past)
    (ends : s.SupersessionEnds w rows (s.newlyDead victims) segments past flushed live allow crash post)
    (valid : ∀ row ∈ rows, s.schema.validate row = .ok ()) (inside : ∀ id ∈ victims, id < s.rows)
    (changes : s.newlyDead victims ≠ [] ∨ rows ≠ []) (spent : s.watermark ≠ 0)
    (same : SameKills w w₁) (flushes : s.Flushes segments flushed live first segments₁ flushed₁ live₁)
    (early : first = s ∧ segments₁ = segments ∧ flushed₁ = flushed ∧ live₁ = live ∨
      ∃ id ∈ s.newlyDead victims, s.bufferBase ≤ id)
    (held : first.Held w₁.disk segments₁ past flushed₁ live₁) (grounded : s.Full → segments₁ ≠ [])
    (durable : s.persistent = true → ∀ id ∈ s.newlyDead victims, id < first.bufferBase) :
    Fallible.wp backend allow crash (do
      (do
        openBracket first.watermark rows.length
        Fallible.each (supersedeRow first.watermark) rows
        settleReplacements)
      (do
        commitKills (s.newlyDead victims) first.watermark first.watermark
        Fallible.update fun store => store.bury (s.newlyDead victims) first.watermark
        flushIfFull
        return (s.newlyDead victims).length)) post first w₁ := by
  have mark := flushes.watermark
  have shows := flushes.ledger
  obtain ⟨sections, slots, buffer, bufferBase, knowledge, wal, frame, logs⟩ := flushes.frame
  have key : first.schema = s.schema ∧ first.orderingKey = s.orderingKey ∧
    first.persistent = s.persistent ∧
      first.rows = s.rows ∧ first.tombstones = s.tombstones ∧ first.wal.isSome = s.wal.isSome ∧
        (first.Full ↔ s.Full) := by
    rw [frame]
    exact ⟨rfl, rfl, rfl, rfl, rfl, logs,
      fun full => ⟨full.persistent, full.walSync, logs.symm.trans full.logs⟩,
      fun full => ⟨full.persistent, full.walSync, logs.trans full.logs⟩⟩
  obtain ⟨schema, orderingKey, persistent, count, tombstones, wals, fulls⟩ := key
  have back {v : World F} (recovers : first.Full →
      v.disk.Recovers first.schema first.orderingKey (first.pending w₁.disk live₁)
      (first.Uncommitted w₁ segments₁ live₁ rows)) (full : s.Full) :
      v.disk.Recovers s.schema s.orderingKey (s.pending w.disk live)
        (s.Uncommitted w segments live rows) := by
    rw [← schema, ← orderingKey]
    exact ((recovers (fulls.mpr full)).widen (flushes.fewer same)).mono fun ledger =>
      .ofFlushes flushes same
  refine Fallible.wp_bind.mpr (wp_takeReplacements held (fun full => grounded (fulls.mp full))
    (by rw [schema]; exact valid)
    (fun v recovers => ends.safe v fun full => (back recovers full).mono fun _ => .inl) ?_ ?_ ?_ ?_)
  · intro v later fails held'
    exact ends.unopened .append first v segments₁ flushed₁ live₁ (same.trans later)
      (.inr (fails.earlier same.1)) flushes held'
  · intro e s' v later breaks recovers
    exact ends.broken e s' v (same.1.trans later) (.inr (breaks.earlier same.1 wals)) (back recovers)
  · intro s' v column none later replays held' _
    rw [mark] at replays held'
    refine ends.offline first s' v segments₁ flushed₁ live₁ column ?_
      (same.trans later) flushes replays held'
    simpa [none] using wals.symm
  · intro taken v segments₂ flushed₂ live₂ later takes held' opened recovers
    have grows := takes.grows held.sound held'.sound
    have ledger := takes.ledger held.sound
    obtain ⟨sections', slots', buffer', bufferBase', knowledge', wal', rows', frame', logs'⟩ :=
      takes.frame
    have kept : taken.schema = first.schema ∧ taken.orderingKey = first.orderingKey ∧
        taken.tombstones = first.tombstones ∧ taken.persistent = first.persistent ∧
          (taken.Full ↔ first.Full) := by
      rw [frame']
      exact ⟨rfl, rfl, rfl, rfl,
        fun full => ⟨full.persistent, full.walSync, logs'.symm.trans full.logs⟩,
        fun full => ⟨full.persistent, full.walSync, logs'.trans full.logs⟩⟩
    have mortal : taken.Mortal (s.newlyDead victims) := by
      refine ⟨fun id member => ?_, fun id member => ?_, fun stored id member => ?_,
        newlyDead_ascending victims⟩
      · have alive := (mem_newlyDead.mp member).2
        unfold isKilled killedAt at alive ⊢
        rwa [kept.2.2.1, tombstones]
      · have bound := inside id (mem_newlyDead.mp member).1
        omega
      · have bound := durable (persistent ▸ kept.2.2.2.1 ▸ stored) id member
        omega
    have stages : s.Stages w rows (s.newlyDead victims) segments flushed live taken v segments₂
        flushed₂ live₂ :=
      .intro first taken v segments₁ segments₂ flushed₁ live₁ flushed₂ live₂
        (same.trans later) flushes early takes
    have committed := wp_commitSupersede (kept.2.2.2.2.trans fulls) stages mortal held'
      ⟨kept.1.trans schema, kept.2.1.trans orderingKey⟩ (fun some => opened (wals.trans some))
      (ledger.trans (by rw [shows]))
      (fun id member => by rw [sound.ledger_length]; exact inside id (mem_newlyDead.mp member).1)
      (fun full => by
        cases takes with
        | logged _ replays => exact ⟨live₁, by rw [mark]⟩
        | flushed _ _ _ _ _ offline =>
          have some := full.logs
          rw [← wals, offline] at some
          cases some)
      changes spent (same.1.trans later.1) ends (back recovers)
    rw [← mark] at committed
    exact committed

/-- The rule for a supersession. Its errors are told apart by how far it came: not at all, to
an open bracket, to its replacements, or to its delete log. -/
theorem wp_supersede {victims : List Nat} (held : s.Held w.disk segments past flushed live)
    (ends : s.SupersessionEnds w rows (s.newlyDead victims) segments past flushed live allow crash post)
    (unchanged : ∀ e, (∀ f, e ≠ .io f) → post (.error e) s w)
    (idle : s.newlyDead victims = [] → rows = [] → post (.ok 0) s w) :
    Fallible.wp backend allow crash (supersede rows victims) post s w := by
  simp only [supersede, Fallible.wp_bind, wp_refuseReadOnly held.sound.writable, Fallible.wp_read]
  split
  · exact unchanged _ (by simp)
  · next some =>
    simp only [Fallible.wp_bind, Fallible.wp_ofExcept]
    cases checked : validateRows s.buffer rows with
    | error e => exact unchanged e fun f => (validateRows_error checked f)
    | ok _ =>
      have valid : ∀ row ∈ rows, s.schema.validate row = .ok () := by
        intro row member
        have ok := validateRows_ok checked row member
        unfold WriteBuffer.validate at ok
        rwa [held.sound.bufferSchema] at ok
      simp only
      cases range : victims.find? fun id => decide (s.rows ≤ id) with
      | some bad => exact unchanged _ (by simp)
      | none =>
        have inside : ∀ id ∈ victims, id < s.rows := by simpa using range
        obtain ⟨victim, member⟩ := List.exists_mem_of_ne_nil victims (by simpa using some)
        have spent := held.sound.spent (Nat.zero_lt_of_lt (inside victim member))
        simp only
        split
        · next nothing =>
          obtain ⟨none, bare⟩ : s.newlyDead victims = [] ∧ rows = [] := by simpa using nothing
          simpa [none] using idle none bare
        · next something =>
          have changes : s.newlyDead victims ≠ [] ∨ rows ≠ [] := by
            by_contra neither
            rw [not_or, not_not, not_not] at neither
            simp [neither.1, neither.2] at something
          simp only [Fallible.wp_bind, Fallible.wp_when]
          refine ⟨fun buffered => ?_, fun settled_ => ?_⟩
          · obtain ⟨stored, id, dead, above⟩ : s.persistent = true ∧ ∃ id ∈ s.newlyDead victims,
                s.bufferBase ≤ id := by
              simpa using buffered
            have low := inside id (mem_newlyDead.mp dead).1
            refine wp_flushHeld held
                (fun w' recovers => ends.safe w' fun full => (recovers full).mono fun ledger which =>
              .inl (which.elim (fun same => .inr (.inl same)) .inl))
              (fun column _ _ => unchanged _ (by simp)) ?_ ?_ ?_
            · intro s' w' segments' flushed' live' same fails flushes held'
              exact ends.unopened .write s' w' segments' flushed' live' same (.inl fails) flushes held'
            · intro s' w' later fails recovers
              exact ends.broken .openLog s' w' later (.inl fails) fun full =>
                (recovers full).mono fun ledger same => .inr (.inl same)
            · intro s' w' segments' flushed' live' same _ flushes held' empty
              have base := held'.sound.durable empty
              have rows' : s'.rows = s.rows := by
                obtain ⟨sections, slots, buffer, bufferBase, knowledge, wal, frame, -⟩ := flushes.frame
                rw [frame]
              have rest := wp_supersedeBracketed held.sound ends valid inside changes spent same
                flushes (.inr ⟨id, dead, above⟩) held'
                (fun _ => by
                  cases flushes with
                  | kept => exact absurd base (by omega)
                  | moved => simp)
                (fun _ id member => by
                  have bound := inside id (mem_newlyDead.mp member).1
                  omega)
              simpa only [Fallible.wp_bind, Fallible.wp_read] using rest
          · have durable : s.persistent = true → ∀ id ∈ s.newlyDead victims, id < s.bufferBase := by
              intro stored
              simpa [stored] using settled_
            have rest := wp_supersedeBracketed held.sound ends valid inside changes spent (.refl w) .kept
              (.inl ⟨rfl, rfl, rfl, rfl⟩) held
              (fun full bare => by
                -- A store without segments has no dead row, so a victim would have been buffered.
                have none := (held.sound.covers.nil_iff fun segment member =>
                  (held.sound.segmentsOk segment member).filled).mp bare
                have low := durable full.persistent victim
                have kill := (held.logged full).killedDurable victim
                cases dead : s.isKilled victim with
                | true => exact absurd (kill dead) (by omega)
                | false => exact absurd (low (mem_newlyDead.mpr ⟨member, dead⟩)) (by omega))
              durable
            simpa only [Fallible.wp_bind, Fallible.wp_read] using rest

end Supersede

end Store

end TallyDB
