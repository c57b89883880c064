import TallyDB.StorageLite.Flush

/-!
# Logging a row and appending it

A row is logged and synced before the buffer takes it, so the disk recovers the ledger
without the row until the record is whole, and with it from then on.
-/

namespace TallyDB

open Crash

variable {F : Type} [F64 F] {allow : World F → Call F → Outcome → Prop} {crash : World F → Prop}
variable {s : Store F} {w : World F} {segments past : List (Segment F)}
  {flushed live : List (Replayed F)}

/-! ### Failures -/

/-- A log append may fail and leave nothing somewhere after `w`. -/
def AppendFails (allow : World F → Call F → Outcome → Prop) (w : World F) : Prop :=
  ∃ (w' : World F) (writer : Nat) (entry : WalEntry F), w.trace <+: w'.trace ∧
    allow w' (.append writer entry) (.err .nothing)

/-- A failing append may leave bytes, or a sync may fail, somewhere after `w`. -/
def Spoils (allow : World F → Call F → Outcome → Prop) (w : World F) : Prop :=
  ∃ w' : World F, w.trace <+: w'.trace ∧
    ((∃ writer entry left, left ≠ .nothing ∧ allow w' (.append writer entry) (.err left)) ∨
      ∃ writer left, allow w' (.sync writer) (.err left))

omit [F64 F] in
theorem AppendFails.earlier {w' : World F} (fails : AppendFails allow w')
    (before : w.trace <+: w'.trace) :
    AppendFails allow w := by
  obtain ⟨v, writer, entry, after, rest⟩ := fails
  exact ⟨v, writer, entry, before.trans after, rest⟩

omit [F64 F] in
theorem Spoils.earlier {w' : World F} (spoils : Spoils allow w') (before : w.trace <+: w'.trace) :
    Spoils allow w := by
  obtain ⟨v, after, rest⟩ := spoils
  exact ⟨v, before.trans after, rest⟩

/-! ### The log -/

section Log

variable {disk : Disk F} {writer generation base : Nat}
  {synced unsynced : List (WalEntry F)} {torn : Bool}

omit [F64 F] in
theorem LogState.append (held : LogState disk writer generation base synced unsynced false)
    (entry : WalEntry F) :
    LogState (disk.appendLog writer [some entry]) writer generation base synced
      (unsynced ++ [entry]) false := by
  refine (Disk.get_updateLog _ held).trans ?_
  simp

omit [F64 F] in
theorem LogState.tear (held : LogState disk writer generation base synced unsynced false) :
    LogState (disk.appendLog writer [none]) writer generation base synced unsynced true := by
  refine (Disk.get_updateLog _ held).trans ?_
  simp

omit [F64 F] in
theorem LogState.sync (held : LogState disk writer generation base synced unsynced false) :
    LogState (disk.syncLog writer) writer generation base (synced ++ unsynced) [] false := by
  refine (Disk.get_updateLog _ held).trans ?_
  simp

omit [F64 F] in
theorem get_appendLog_other {name : ObjectName} (different : name ≠ .wal)
    (frames : List (Option (WalEntry F))) :
    (disk.appendLog writer frames).get name = disk.get name := Disk.get_updateLog_other _ _ different

omit [F64 F] in
theorem get_syncLog_other {name : ObjectName} (different : name ≠ .wal) :
    (disk.syncLog writer).get name = disk.get name := Disk.get_updateLog_other _ _ different

end Log

/-- The log's file is all that differs. -/
def LogOnly (before after : World F) : Prop :=
  before.trace <+: after.trace ∧ ∀ name, name ≠ .wal → after.disk.get name = before.disk.get name

omit [F64 F] in
theorem LogOnly.refl (w : World F) : LogOnly w w := ⟨List.prefix_rfl, fun _ _ => rfl⟩

omit [F64 F] in
theorem LogOnly.trans {first second third : World F} (left : LogOnly first second)
    (right : LogOnly second third) :
    LogOnly first third :=
  ⟨left.1.trans right.1, fun name different => (right.2 name different).trans (left.2 name different)⟩

omit [F64 F] in
theorem LogOnly.append (w : World F) (writer : Nat) (entry : WalEntry F) (outcome : Outcome) :
    LogOnly w (w.did (.append writer entry) outcome) := by
  refine ⟨World.trace_did w _ _, fun name different => ?_⟩
  cases outcome with
  | ok => exact get_appendLog_other different _
  | err left =>
    cases left with
    | nothing => rfl
    | part => exact get_appendLog_other different _
    | whole => exact get_appendLog_other different _

omit [F64 F] in
theorem LogOnly.sync (w : World F) (writer : Nat) (outcome : Outcome) :
    LogOnly w (w.did (.sync writer) outcome) := by
  refine ⟨World.trace_did w _ _, fun name different => ?_⟩
  cases outcome with
  | ok => exact get_syncLog_other different
  | err left => rfl

omit [F64 F] in
theorem LogOnly.elapsed (w : World F) (outcome : Outcome) : LogOnly w (w.did .elapsed outcome) := by
  refine ⟨World.trace_did w _ _, fun name _ => ?_⟩
  cases outcome <;> rfl

theorem Store.Sound.logOnly {w' : World F} (sound : s.Sound w.disk segments past)
    (only : LogOnly w w') :
    s.Sound w'.disk segments past :=
  sound.frame fun name reads => only.2 name (by rintro rfl; exact reads)

namespace Store

variable {row : Row F} {post : Except StorageError Unit → Store F → World F → Prop}
variable {writer base : Nat} {synced unsynced : List (WalEntry F)}

omit [F64 F] in
theorem wp_logEntry {entry : WalEntry F}
    (held : s.Full → LogState w.disk writer s.generation base synced unsynced false)
    (before : crash w)
    (unlogged : ∀ w', w.trace <+: w'.trace → w'.disk = w.disk → AppendFails allow w →
      post (.error (.io (.backend .append))) s w')
    (spoiled : ∀ w' later torn, LogOnly w w' → Spoils allow w → later = unsynced ∨
      later = unsynced ++ [entry] →
      (s.Full → LogState w'.disk writer s.generation base synced later torn) →
      post (.error (.io (.backend .append))) s w')
    (done : ∀ w', LogOnly w w' →
      (s.Full → LogState w'.disk writer s.generation base synced (unsynced ++ [entry]) false) →
      post (.ok ()) s w') :
    Fallible.wp backend allow crash (Io.append writer entry) post s w := by
  refine Io.wp_append.mpr ⟨before, fun _ => ?_, fun left allowed => ?_⟩
  · exact done _ (.append w writer entry .ok) fun full => (held full).append entry
  · cases left with
    | nothing =>
        exact unlogged _ (World.trace_did w _ _) rfl ⟨w, writer, entry, List.prefix_rfl, allowed⟩
    | part =>
      exact spoiled _ unsynced true (.append w writer entry _)
        ⟨w, List.prefix_rfl, .inl ⟨writer, entry, .part, by simp, allowed⟩⟩ (.inl rfl) fun full =>
          (held full).tear
    | whole =>
      exact spoiled _ (unsynced ++ [entry]) false (.append w writer entry _)
        ⟨w, List.prefix_rfl, .inl ⟨writer, entry, .whole, by simp, allowed⟩⟩ (.inr rfl)
        fun full => (held full).append entry

omit [F64 F] in
theorem wp_syncLog (held : s.Full → LogState w.disk writer s.generation base synced unsynced false)
    (before : crash w)
    (spoiled : ∀ w', LogOnly w w' → Spoils allow w →
      (s.Full → LogState w'.disk writer s.generation base synced unsynced false) →
      post (.error (.io (.backend .sync))) s w')
    (done : ∀ w', LogOnly w w' →
      (s.Full → LogState w'.disk writer s.generation base (synced ++ unsynced) [] false) →
      post (.ok ()) s w') :
    Fallible.wp backend allow crash (Io.sync writer) post s w := by
  refine Io.wp_sync.mpr ⟨before, fun _ => ?_, fun left allowed => ?_⟩
  · exact done _ (.sync w writer .ok) fun full => (held full).sync
  · exact spoiled _ (.sync w writer _) ⟨w, List.prefix_rfl, .inr ⟨writer, left, allowed⟩⟩ held

omit [F64 F] in
/-- The rule for logging a row. Under full sync the record is durable where it ends well. -/
theorem wp_walAppend (held : s.Full → s.wal = some writer ∧
      LogState w.disk writer s.generation base synced unsynced false)
    (before : crash w)
    (safe : ∀ w', LogOnly w w' →
      (s.Full → LogState w'.disk writer s.generation base synced (unsynced ++ [.row row]) false) →
      crash w')
    (unlogged : ∀ w', w.trace <+: w'.trace → w'.disk = w.disk → AppendFails allow w →
      post (.error (.io (.backend .append))) s w')
    (spoiled : ∀ w' e later torn, e = .append ∨ e = .sync → LogOnly w w' → Spoils allow w →
      later = unsynced ∨ later = unsynced ++ [.row row] →
      (s.Full → LogState w'.disk writer s.generation base synced later torn) →
      post (.error (.io (.backend e))) s w')
    (done : ∀ w', LogOnly w w' →
      (s.Full → LogState w'.disk writer s.generation base (synced ++ unsynced ++ [.row row]) [] false) →
      post (.ok ()) s w') :
    Fallible.wp backend allow crash (walAppend row) post s w := by
  simp only [walAppend, Fallible.wp_bind, Fallible.wp_read]
  cases logs : s.wal with
  | none =>
    refine done w (.refl w) fun full => ?_
    have some := full.logs
    rw [logs] at some
    cases some
  | some own =>
    have same (full : s.Full) : own = writer := Option.some.inj (logs.symm.trans (held full).1)
    have state (full : s.Full) : LogState w.disk own s.generation base synced unsynced false :=
      same full ▸ (held full).2
    simp only [Fallible.wp_bind]
    refine wp_logEntry state before unlogged ?_ ?_
    · exact fun w' later torn only spoils which log =>
        spoiled w' .append later torn (.inl rfl) only spoils which fun full => same full ▸ log full
    · intro w₁ only₁ log₁
      have safe₁ : crash w₁ := safe w₁ only₁ fun full => same full ▸ log₁ full
      have synced₁ : Fallible.wp backend allow crash (Io.sync own) post s w₁ := by
        refine wp_syncLog log₁ safe₁ ?_ ?_
        · intro w₂ only₂ spoils log₂
          exact spoiled w₂ .sync (unsynced ++ [.row row]) false (.inr rfl) (only₁.trans only₂)
            (spoils.earlier only₁.1) (.inr rfl) fun full => same full ▸ log₂ full
        · intro w₂ only₂ log₂
          refine done w₂ (only₁.trans only₂) fun full => ?_
          rw [List.append_assoc]
          exact same full ▸ log₂ full
      -- Only a store under full sync promises more than that nothing else changed.
      have unsure (w' : World F) (only : LogOnly w w') (other : s.walSync ≠ .full) :
          post (.ok ()) s w' :=
        done w' only fun full => (other full.walSync).elim
      cases level : s.walSync with
      | full => exact synced₁
      | off => exact unsure w₁ only₁ (by simp [level])
      | group =>
        simp only [Fallible.wp_bind, Io.wp_elapsed]
        refine ⟨safe₁, fun _ => ?_, fun left _ => unsure _ (only₁.trans (.elapsed w₁ _)) (by
            simp [level])⟩
        simp only [Fallible.when, if_true]
        have vacuous (v : World F) (full : s.Full) : LogState v.disk own s.generation base synced
            unsynced false :=
          absurd full.walSync (by simp [level])
        refine wp_syncLog (vacuous _) (safe _ (only₁.trans (.elapsed w₁ _)) fun full =>
          absurd full.walSync (by simp [level])) ?_ ?_
        · intro w₂ only₂ spoils _
          exact spoiled w₂ .sync unsynced false (.inr rfl) ((only₁.trans (.elapsed w₁ _)).trans only₂)
            (spoils.earlier (only₁.trans (.elapsed w₁ _)).1) (.inl rfl) fun full =>
              same full ▸ vacuous w₂ full
        · exact fun w₂ only₂ _ => unsure w₂ ((only₁.trans (.elapsed w₁ _)).trans only₂)
            (by simp [level])

end Store

/-! ### One more row -/

omit [F64 F] in
theorem ledgerOf_append (rows more : List (Row F)) (kills : Tombstones)
    (alive : ∀ id, (kills.lookup id).isSome → id < rows.length) :
    ledgerOf (rows ++ more) kills = ledgerOf rows kills ++ more.map (·, false) := by
  unfold ledgerOf
  rw [List.zipIdx_append, List.map_append]
  congr 1
  refine List.ext_getElem (by simp) fun i bound _ => ?_
  have fresh : (kills.lookup (rows.length + i)).isSome = false := by
    by_contra dead
    have below := alive _ (by simpa using dead)
    omega
  simpa using fresh

namespace Store

theorem Sound.rows_length {disk : Disk F} (sound : s.Sound disk segments past) :
    (segments.flatMap Segment.rows ++ s.buffer.rows).length = s.rows := by
  have total := sound.covers.total
  have counted := sound.axis.counted
  simp only [Nat.zero_add] at total
  rw [List.length_append, List.length_flatMap, counted, ← total]
  congr 2
  exact List.map_congr_left fun segment _ => TallyDB.rows_length segment

variable {row : Row F} {valid : s.buffer.validate row = .ok ()}

theorem Sound.ledger_taken {disk : Disk F} (sound : s.Sound disk segments past) :
    (s.taken row valid).ledger segments = s.ledger segments ++ [(row, false)] := by
  have appended := ledgerOf_append (segments.flatMap Segment.rows ++ s.buffer.rows) [row] s.tombstones
    (fun id dead => by rw [sound.rows_length]; exact sound.killed id dead)
  simpa [ledger, taken, WriteBuffer.push, List.append_assoc] using appended

theorem Sound.taken {disk : Disk F} (sound : s.Sound disk segments past) :
    (s.taken row valid).Sound disk segments past where
  writable := sound.writable
  keyed := sound.keyed
  threshold := sound.threshold
  bufferSchema := sound.bufferSchema
  bufferKey := sound.bufferKey
  axis := taken_axis valid sound.axis
  slots := sound.slots
  segmentsOk := sound.segmentsOk
  covers := sound.covers
  below birth member := by
    rw [taken_births valid sound.axis, ← List.append_assoc] at member
    rw [taken_watermark]
    rcases List.mem_append.mp member with old | new
    · exact Nat.lt_succ_of_lt (sound.below birth old)
    · exact Nat.lt_succ_of_le (List.mem_singleton.mp new).le
  killed id dead := Nat.lt_succ_of_lt (sound.killed id dead)
  history := sound.history
  pastOk := sound.pastOk
  remembered := sound.remembered
  virtual none := sound.virtual (by simpa [Store.taken] using none)
  inOrder := WriteBuffer.push_inOrder sound.inOrder row valid

/-- A logged row is one more live unit. -/
theorem Logged.taken {w' : World F} (logged : s.Logged w.disk segments past flushed live)
    (sound : s.Sound w.disk segments past) (only : LogOnly w w') {writer base : Nat}
    (holds : s.wal = some writer) (start : base + (unitRows flushed).length = s.bufferBase)
    (log : LogState w'.disk writer s.generation base
      ((flushed ++ live).flatMap Replayed.entries ++ [.row row]) [] false) :
    (s.taken row valid).Logged w'.disk segments past flushed (live ++ [.row row]) where
  layout := logged.layout.frame fun name inside => only.2 name (by rintro rfl; exact inside)
  killedDurable := logged.killedDurable
  witnessed sequence committed :=
    (logged.witnessed sequence ((Committed.frame fun number => only.2 _ (by simp)).mp committed)).mono
      (List.subset_append_left _ _)
  log := {
    file := ⟨writer, base, holds, start, by
      change LogState w'.disk writer s.generation base _ [] false
      simpa [List.flatMap_append, Replayed.entries, List.append_assoc] using log⟩
    rows := by
      rw [unitRows_append, logged.log.rows]
      rfl
    shared := by
      intro sequence rows member filled
      rw [taken_births valid sound.axis]
      have old : Replayed.supersession sequence rows ∈ live := by simpa using member
      exact List.mem_append_left _ (logged.log.shared sequence rows old filled) }
  leftover bare base object held := by
    obtain ⟨first, segment, same, ok, begins, covered⟩ :=
      logged.leftover bare base object ((only.2 (.segment s.generation base) (by simp)).symm.trans held)
    exact ⟨first, segment, same, ok, begins, covered.trans (List.prefix_append _ _)⟩
  ordinary bare unit member := by
    rw [← List.append_assoc] at member
    rcases List.mem_append.mp member with old | new
    · exact logged.ordinary bare unit old
    · exact ⟨row, List.mem_singleton.mp new⟩

/-- More units behind the live ones land on what settles of them all. -/
theorem Logged.lands {p : Ledger F → Prop} {known : List (Replayed F)} {disk : Disk F}
    {c : List Nat} (logged : s.Logged disk segments past flushed live)
    (sound : s.Sound disk segments past) (more : List (Replayed F))
    (plain : segments = [] → Ordinary more)
    (valid : ∀ row ∈ unitRows more, s.schema.validate row = .ok ())
    (within : ∀ unit ∈ settled c (live ++ more), unit.Counts c ∨ unit ∈ known)
    (which : ∀ sequence ∈ c, Committed disk s.generation sequence)
    (ledger : p (ledgerOf (segments.flatMap Segment.rows ++ unitRows (settled c (live ++ more)))
      s.tombstones)) :
    Lands s.schema segments s.tombstones c s.buffer.rows flushed known p
      ((flushed ++ (live ++ more)).flatMap Replayed.entries) (settled c (live ++ more)) := by
  refine lands_units (fun bare unit member => ?_) ?_ ?_ within (fun sequence member =>
    (logged.witnessed sequence (which sequence member)).mono (List.subset_append_left _ _)) ledger
  · rw [← List.append_assoc] at member
    rcases List.mem_append.mp member with old | new
    · exact logged.ordinary bare unit old
    · exact plain bare unit new
  · rw [unitRows_append, logged.log.rows]
    exact List.prefix_append _ _
  · rw [unitRows_append, logged.log.rows]
    intro row member
    rcases List.mem_append.mp member with old | new
    · exact sound.valid row old
    · exact valid row new

/-- While its record is in flight, the row is recovered or it is not. -/
theorem Logged.recovers_inFlight {w' : World F} {p : Ledger F → Prop}
    (logged : s.Logged w.disk segments past flushed live) (sound : s.Sound w.disk segments past)
    (only : LogOnly w w') (valid : s.schema.validate row = .ok ()) {writer base : Nat}
    (start : base + (unitRows flushed).length = s.bufferBase)
    {synced unsynced : List (WalEntry F)} {torn : Bool}
    (whole : synced ++ unsynced = (flushed ++ live).flatMap Replayed.entries ∨
      synced ++ unsynced = (flushed ++ live).flatMap Replayed.entries ++ [.row row])
    (below : (flushed ++ live).flatMap Replayed.entries <+: synced)
    (log : LogState w'.disk writer s.generation base synced unsynced torn)
    (before : p (s.settledLedger w.disk segments live))
    (after : p (s.ledger segments ++ [(row, false)])) :
    w'.disk.Recovers s.schema s.orderingKey (s.pending w.disk live) p := by
  have laid := (logged.laid sound).frame only.2
  have which (sequence : Nat) : sequence ∈ committedOf w'.disk s.generation ↔
      sequence ∈ committedOf w.disk s.generation := by
    rw [mem_committedOf, mem_committedOf]
    exact Committed.frame fun number => only.2 (.deleteLog s.generation number) (by simp)
  have committed (units : List (Replayed F)) :
      settled (committedOf w'.disk s.generation) units = settled
        (committedOf w.disk s.generation) units :=
    settled_congr which units
  have without : Lands s.schema segments s.tombstones (committedOf w'.disk s.generation)
    s.buffer.rows flushed (s.pending w.disk live) p
      ((flushed ++ (live ++ [])).flatMap Replayed.entries)
      (settled (committedOf w'.disk s.generation) (live ++ [])) := by
    refine logged.lands sound [] (fun _ => by simp [Ordinary]) (by simp)
      (fun unit member => counts_or_pending (by simpa using mem_of_settled member) which)
      (fun sequence member => mem_committedOf.mp ((which sequence).mp member)) ?_
    rw [List.append_nil, committed]
    exact before
  have with_ : Lands s.schema segments s.tombstones (committedOf w'.disk s.generation) s.buffer.rows
    flushed (s.pending w.disk live) p
      ((flushed ++ (live ++ [Replayed.row row])).flatMap Replayed.entries)
      (settled (committedOf w'.disk s.generation) (live ++ [Replayed.row row])) := by
    refine logged.lands sound [Replayed.row row]
      (fun _ unit member => ⟨row, List.mem_singleton.mp member⟩) ?_
      (fun unit member => (settled_within member).elim .inl fun old => counts_or_pending old which)
      (fun sequence member => mem_committedOf.mp ((which sequence).mp member)) ?_
    · simpa [Replayed.rows] using valid
    · rw [settled_concat, if_pos (by exact trivial), unitRows_append, logged.log.rows,
        ← List.append_assoc,
        ledgerOf_append _ _ _ fun id dead => ?_]
      · exact after
      · rw [sound.rows_length]
        exact sound.killed id dead
  refine laid.recovers log start fun kept => ?_
  obtain ⟨rest, split⟩ := below
  rcases whole with none | one
  · have nothing : unsynced = [] := by
      rw [← split, List.append_assoc] at none
      have gone := List.append_cancel_left (none.trans (List.append_nil _).symm)
      exact (List.append_eq_nil_iff.mp gone).2
    rw [nothing, List.append_nil] at none
    rw [nothing, List.take_nil, List.append_nil, none]
    rw [List.append_nil] at without
    exact ⟨_, without⟩
  · have kept_ : synced ++ unsynced.take kept = (flushed ++ live).flatMap Replayed.entries ∨
        synced ++ unsynced.take kept = (flushed ++ live).flatMap Replayed.entries ++ [.row row] := by
      rw [← split, List.append_assoc] at one ⊢
      have tail : rest ++ unsynced = [.row row] := List.append_cancel_left one
      rcases List.append_eq_singleton_iff.mp tail with ⟨rfl, rfl⟩ | ⟨rfl, rfl⟩
      · cases kept <;> simp
      · simp
    rcases kept_ with none | one
    · rw [none]
      rw [List.append_nil] at without
      exact ⟨_, without⟩
    · rw [one]
      rw [← List.append_assoc, List.flatMap_append] at with_
      exact ⟨_, with_⟩

omit [F64 F] in
theorem SameKills.ofLogOnly {w' : World F} (only : LogOnly w w') : SameKills w w' :=
  ⟨only.1, fun generation number => only.2 (.deleteLog generation number) (by simp)⟩

theorem wp_flushIfFull (held : s.Held w.disk segments past flushed live)
    (safe : ∀ w', (s.Full →
      w'.disk.Recovers s.schema s.orderingKey (s.pending w.disk live) fun ledger =>
      ledger = s.ledger segments ∨ ledger = s.settledLedger w.disk segments live) → crash w')
    (refused : ∀ column, s.segmentRows ≤ s.buffer.len →
      s.frozenBuffer = .error (.allNullKeyColumn column) →
      post (.error (.allNullKeyColumn column)) s w)
    (failed : ∀ s' w' segments' flushed' live', SameKills w w' → WriteFails allow w →
      s.Flushes segments flushed live s' segments' flushed' live' →
      s'.Held w'.disk segments' past flushed' live' →
      post (.error (.io (.backend .write))) s' w')
    (stranded : ∀ s' w', w.trace <+: w'.trace → OpenFails allow w →
      (s.Full → w'.disk.Recovers s.schema s.orderingKey (s.pending w.disk live)
      (· = s.ledger segments)) →
      post (.error (.io (.backend .openLog))) s' w')
    (done : ∀ s' w' segments' flushed' live', SameKills w w' →
      s.Flushes segments flushed live s' segments' flushed' live' →
      s'.Held w'.disk segments' past flushed' live' →
      post (.ok ()) s' w') :
    Fallible.wp backend allow crash flushIfFull post s w := by
  simp only [flushIfFull, Fallible.wp_bind, Fallible.wp_read, Fallible.wp_when, decide_eq_true_eq,
    decide_eq_false_iff_not]
  refine ⟨fun full => ?_, fun _ => done s w segments flushed live (.refl w) .kept held⟩
  refine wp_flushHeld held safe (fun column _ => refused column full) failed stranded ?_
  exact fun s' w' segments' flushed' live' same _ flushes held' _ =>
    done s' w' segments' flushed' live' same flushes held'

/-- The rule for an append. Past its record, only the threshold flush can still fail. -/
theorem wp_append {post : Except StorageError Nat → Store F → World F → Prop}
    (held : s.Held w.disk segments past flushed live)
    (safe : ∀ w', (s.Full →
      w'.disk.Recovers s.schema s.orderingKey (s.pending w.disk live) fun ledger =>
      ledger = s.settledLedger w.disk segments live ∨
      ledger = s.ledger segments ++ [(row, false)]) → crash w')
    (invalid : ∀ e, s.buffer.validate row = .error e → post (.error e) s w)
    (unlogged : ∀ w', SameKills w w' → AppendFails allow w → s.Held w'.disk segments past flushed live →
      post (.error (.io (.backend .append))) s w')
    (spoiled : ∀ w' e, w.trace <+: w'.trace → e = .append ∨ e = .sync → Spoils allow w →
      (s.Full → w'.disk.Recovers s.schema s.orderingKey (s.pending w.disk live) fun ledger =>
        ledger = s.settledLedger w.disk segments live ∨ ledger = s.ledger segments ++ [(row, false)]) →
      post (.error (.io (.backend e))) s w')
    (refused : ∀ (valid : s.buffer.validate row = .ok ()) w' column, SameKills w w' →
      s.segmentRows ≤ (s.taken row valid).buffer.len →
      (s.taken row valid).frozenBuffer = .error (.allNullKeyColumn column) →
      (s.taken row valid).Held w'.disk segments past flushed (live ++ [.row row]) →
      post (.error (.allNullKeyColumn column)) (s.taken row valid) w')
    (failed : ∀ (valid : s.buffer.validate row = .ok ()) s' w' segments' flushed' live',
      SameKills w w' →
      WriteFails allow w →
      (s.taken row valid).Flushes segments flushed (live ++ [.row row]) s' segments' flushed' live' →
      s'.Held w'.disk segments' past flushed' live' → post (.error (.io (.backend .write))) s' w')
    (stranded : ∀ s' w', w.trace <+: w'.trace → OpenFails allow w →
      (s.Full → w'.disk.Recovers s.schema s.orderingKey (s.pending w.disk live)
      (· = s.ledger segments ++ [(row, false)])) →
      post (.error (.io (.backend .openLog))) s' w')
    (done : ∀ (valid : s.buffer.validate row = .ok ()) s' w' segments' flushed' live', SameKills w w' →
      (s.taken row valid).Flushes segments flushed (live ++ [.row row]) s' segments' flushed' live' →
      s'.Held w'.disk segments' past flushed' live' → post (.ok s.rows) s' w') :
    Fallible.wp backend allow crash (append row) post s w := by
  simp only [append, Fallible.wp_bind, wp_refuseReadOnly held.sound.writable, Fallible.wp_read,
    Fallible.wp_ofExcept]
  cases checked : s.buffer.validate row with
  | error e => exact invalid e checked
  | ok _ =>
    have valid : s.schema.validate row = .ok () := held.sound.bufferSchema ▸ checked
    -- Both the log and the row's place behind the flushed ones, where there is a log.
    obtain ⟨writer, base, place⟩ : ∃ writer base, s.Full → s.wal = some writer ∧
        base + (unitRows flushed).length = s.bufferBase ∧
        LogState w.disk writer s.generation base
          ((flushed ++ live).flatMap Replayed.entries) [] false := by
      by_cases full : s.Full
      · obtain ⟨writer, base, holds⟩ := (held.logged full).log.file
        exact ⟨writer, base, fun _ => holds⟩
      · exact ⟨0, 0, fun full' => absurd full' full⟩
    have flight {w' : World F} (only : LogOnly w w') {synced unsynced : List (WalEntry F)} {torn : Bool}
        (whole : synced ++ unsynced = (flushed ++ live).flatMap Replayed.entries ∨
          synced ++ unsynced = (flushed ++ live).flatMap Replayed.entries ++ [.row row])
        (below : (flushed ++ live).flatMap Replayed.entries <+: synced)
        (log : s.Full → LogState w'.disk writer s.generation base synced unsynced torn)
          (full : s.Full) :
        w'.disk.Recovers s.schema s.orderingKey (s.pending w.disk live) fun ledger =>
          ledger = s.settledLedger w.disk segments live ∨
            ledger = s.ledger segments ++ [(row, false)] :=
      (held.logged full).recovers_inFlight held.sound only valid (place full).2.1 whole below (log full)
        (.inl rfl) (.inr rfl)
    refine wp_walAppend (fun full => ⟨(place full).1, (place full).2.2⟩) ?_ ?_ ?_ ?_ ?_
    · exact safe w fun full => (held.logged full).recovers held.sound (.inl rfl)
    · exact fun w' only log => safe w' (flight only (.inr rfl) List.prefix_rfl log)
    · intro w' later same fails
      exact unlogged w' ⟨later, fun _ _ => by rw [same]⟩ fails (same ▸ held)
    · intro w' e unsynced torn kind only spoils which log
      refine spoiled w' e only.1 kind spoils (flight only ?_ List.prefix_rfl log)
      rcases which with rfl | rfl
      · exact .inl (List.append_nil _)
      · exact .inr rfl
    · intro w' only log
      simp only [List.append_nil] at log
      have same : SameKills w w' := .ofLogOnly only
      have held' : (s.taken row checked).Held w'.disk segments past flushed (live ++ [.row row]) := by
        refine ⟨(held.sound.logOnly only).taken, fun full => ?_⟩
        have full : s.Full := ⟨full.persistent, full.walSync, full.logs⟩
        exact (held.logged full).taken held.sound only (place full).1 (place full).2.1 (log full)
      have shows : (s.taken row checked).ledger segments = s.ledger segments ++ [(row, false)] :=
        held.sound.ledger_taken
      have settles (full : (s.taken row checked).Full) :
          (s.taken row checked).settledLedger w'.disk segments (live ++ [.row row]) =
            (s.taken row checked).ledger segments := by
        unfold settledLedger ledger
        rw [settled_concat, if_pos (by exact trivial), (held'.logged full).log.rows]
      have fewer : (s.taken row checked).pending w'.disk (live ++ [.row row]) ⊆ s.pending w.disk live :=
        pending_subset rfl (fun _ => (Committed.frame (same.2 s.generation)).mpr) fun unit member =>
          (List.mem_append.mp member).imp_right fun new => by
            obtain rfl := List.mem_singleton.mp new
            trivial
      refine (wp_takeRow checked).mpr (wp_flushIfFull held' ?_ ?_ ?_ ?_ ?_)
      · intro w'' recovers
        refine safe w'' fun full => ?_
        have full : (s.taken row checked).Full := ⟨full.persistent, full.walSync, full.logs⟩
        refine ((recovers full).widen fewer).mono fun ledger which => ?_
        rw [settles full, or_self] at which
        exact .inr (which.trans shows)
      · exact fun column filled frozen => refused checked w' column same filled frozen held'
      · intro s' w'' segments' flushed' live' later fails flushes held''
        exact failed checked s' w'' segments' flushed' live' (same.trans later)
          (fails.earlier same.1) flushes held''
      · intro s' w'' later fails recovers
        refine stranded s' w'' (same.1.trans later) (fails.earlier same.1) fun full => ?_
        exact shows ▸ (recovers ⟨full.persistent, full.walSync, full.logs⟩).widen fewer
      · intro s' w'' segments' flushed' live' later flushes held''
        exact done checked s' w'' segments' flushed' live' (same.trans later) flushes held''

end Store

end TallyDB
