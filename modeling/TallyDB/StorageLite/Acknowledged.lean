import TallyDB.StorageLite.Boot

/-!
# The acknowledged history

Where every call succeeds, a fallen disk holds what the acknowledged operations made, with
the one in flight wholly in or wholly out. A full buffer whose key column is all nulls is
the exception: its flush fails after the row is logged.
-/

namespace TallyDB

open Crash

variable {F : Type} [F64 F]

/-! ### What a run acknowledges -/

/-- The ledgers that an event may leave behind: an operation in flight is applied or not. -/
def Event.after (orderingKey : Nat) : Event F → Ledger F → List (Ledger F)
  | .finished op (.ok _), ledger => [op.apply orderingKey ledger]
  | .interrupted op, ledger => [ledger, op.apply orderingKey ledger]
  | _, ledger => [ledger]

/-- The ledgers that a run's acknowledgements allow, from an empty table on. -/
def acknowledged (orderingKey : Nat) (events : List (Event F)) : List (Ledger F) :=
  events.foldl (fun ledgers event => ledgers.flatMap (event.after orderingKey)) [[]]

variable {orderingKey : Nat} {events : List (Event F)} {event : Event F} {ledger : Ledger F}
  {schema : Schema}

theorem mem_acknowledged : ledger ∈ acknowledged orderingKey (events ++ [event]) ↔
    ∃ before ∈ acknowledged orderingKey events, ledger ∈ event.after orderingKey before := by
  rw [acknowledged, List.foldl_append]
  exact List.mem_flatMap

/-! ### Where a full buffer blocks -/

/-- The rows that a supersession leaves buffered: a buffered victim sends the buffer out first. -/
def Store.bufferedBy (s : Store F) (replacements : List (Row F)) (victims : List Nat) : List (Row F) :=
  if (s.newlyDead victims).any (s.bufferBase ≤ ·) then replacements else s.buffer.rows ++ replacements

/-- The operation does not fill the buffer with valid rows whose key column is all nulls. -/
def Store.Unblocked (s : Store F) : Op F → Prop
  | .append row => s.buffer.validate row = .ok () → s.segmentRows ≤ s.buffer.len + 1 →
      nullKey s.schema.fields (s.buffer.rows ++ [row]) = false
  | .supersede replacements victims => (∀ row ∈ replacements, s.buffer.validate row = .ok ()) →
      s.segmentRows ≤ (s.bufferedBy replacements victims).length →
      nullKey s.schema.fields (s.bufferedBy replacements victims) = false
  | _ => True

instance (s : Store F) : (op : Op F) → Decidable (s.Unblocked op)
  | .append row =>
      inferInstanceAs (Decidable (_ → _ → nullKey s.schema.fields (s.buffer.rows ++ [row]) = false))
  | .supersede replacements victims =>
    inferInstanceAs (Decidable (_ → _ →
      nullKey s.schema.fields (s.bufferedBy replacements victims) = false))
  | .tombstone _ => instDecidableTrue
  | .flush => instDecidableTrue
  | .compact => instDecidableTrue

namespace Store

variable {s s' : Store F} {w w' : World F} {disk : Disk F}
  {segments segments' past past' : List (Segment F)}
variable {flushed flushed' live live' : List (Replayed F)} {rows : List (Row F)}
  {ids : List Nat} {op : Op F}
variable {result : Except StorageError Nat}

/-- A supersession buffers its replacements behind what the buffer held, or alone. -/
theorem Commits.buffered
    (commits : s.Commits w rows ids segments past flushed live s' w' segments' flushed' live')
    (full : s.Full) : s'.buffer.rows = if ids.any
      (s.bufferBase ≤ ·) then rows else s.buffer.rows ++ rows := by
  obtain ⟨taken, w₁, stages, mortal, -, rfl⟩ := commits.stages
  cases stages with
  | intro first _ _ segments₁ _ flushed₁ live₁ _ _ same flushes early takes =>
    cases takes with
    | flushed _ _ _ _ _ offline =>
      have logs := full.logs
      obtain ⟨sections, slots, buffer, bufferBase, knowledge, wal, frame, own⟩ := flushes.frame
      have none : wal = none := by rwa [frame] at offline
      rw [← own, none] at logs
      cases logs
    | logged _ replays =>
      have grown : taken.buffer.rows = first.buffer.rows ++ rows := by
        rw [replays.rows]
        simp [unitRows, Replayed.rows]
      have base : taken.bufferBase = first.bufferBase ∧ taken.persistent = first.persistent := by
        obtain ⟨buffer, knowledge, count, frame⟩ := replays.frame
        rw [frame]
        exact ⟨rfl, rfl⟩
      change taken.buffer.rows = _
      rw [grown]
      cases flushes with
      | kept =>
        have durable := mortal.durable (base.2.trans full.persistent)
        rw [base.1] at durable
        have none : ids.any (s.bufferBase ≤ ·) = false := by simpa using durable
        rw [none]
        rfl
      | moved segment sections writer =>
        have some : ids.any (s.bufferBase ≤ ·) = true := by
          rcases early with ⟨-, same, -⟩ | ⟨id, member, above⟩
          · simp at same
          · simpa using ⟨id, member, above⟩
        rw [some]
        rfl

/-- An unblocked operation is applied where it is acknowledged, and refused otherwise. -/
theorem Effect.acknowledged (held : s.Held w.disk segments past flushed live) (full : s.Full)
    (unblocked : s.Unblocked op)
    (effect : s.Effect w segments past flushed live op result s' w' segments' past' flushed' live') :
    s'.ledger segments' ∈ Event.after s.orderingKey (.finished op result) (s.ledger segments) := by
  have flows (buffered : Store F) (filled : buffered.segmentRows ≤ buffered.buffer.len)
    (positive : 0 < buffered.segmentRows)
      (fits : nullKey buffered.buffer.schema.fields buffered.buffer.rows = false) {column : String}
      (frozen : buffered.frozenBuffer = .error (.allNullKeyColumn column)) : False := by
    have some : buffered.buffer.rows ≠ [] :=
      List.ne_nil_of_length_pos (Nat.lt_of_lt_of_le positive filled)
    obtain ⟨segment, froze⟩ := (frozenBuffer_ok_iff some).mpr fits
    rw [frozen] at froze
    cases froze
  cases result with
  | ok answer =>
    rcases effect.ledger held full.logs with ⟨⟨e, error⟩, -⟩ | applied
    · cases error
    · exact List.mem_singleton.mpr applied
  | error e =>
    refine List.mem_singleton.mpr ?_
    cases effect with
    | refused => rfl
    | appendBlocked row valid w' column same filled frozen =>
      have grown : (s.taken row valid).buffer.len = s.buffer.len + 1 := push_len valid
      have fits := unblocked valid (grown ▸ filled)
      rw [← held.sound.bufferSchema] at fits
      exact (flows (s.taken row valid) filled held.sound.threshold fits frozen).elim
    | supersedeBlocked rows victims _ _ _ _ _ column commits filled frozen =>
      have buffered : s'.buffer.rows = s.bufferedBy rows victims := commits.buffered full
      obtain ⟨_, _, _, _, _, _, _, _, frame, -⟩ := commits.frame
      have kept : s'.segmentRows = s.segmentRows ∧ s'.schema = s.schema := by
        rw [frame]
        exact ⟨rfl, rfl⟩
      have valid : ∀ row ∈ rows, s.buffer.validate row = .ok () := fun row member => by
        have checked := commits.held.sound.valid row (by
          rw [buffered, bufferedBy]
          split <;> simp [member])
        rwa [kept.2, ← held.sound.bufferSchema] at checked
      have fits := unblocked valid
      rw [← buffered, ← kept.1, ← kept.2, ← commits.held.sound.bufferSchema] at fits
      exact (flows _ filled commits.held.sound.threshold (fits filled) frozen).elim
    | supersedeOffline rows victims first _ _ _ _ _ column offline =>
      have logs := full.logs
      rw [offline] at logs
      cases logs

theorem Opens.stamped {fresh : Store F} {image : Image F} (opens : fresh.Opens image s disk) :
    s.Stamped := by
  intro id stamp killed
  by_cases positive : 0 < stamp
  · obtain ⟨next, recovered, above⟩ := @recoveredWatermark_killed F image.sections.nextSequence
      s.tombstones image.slots id stamp (mem_of_lookup killed) positive
    have births := congrArg Prod.snd opens.births
    rw [recovered] at births
    have grows := replayBirths_le next image.replay
    change s.watermark = _ at births
    rw [Option.getD_some] at births
    omega
  · have inside := opens.held.sound.killed id (by simp [isKilled, killedAt, killed])
    have spent := opens.held.sound.spent (Nat.zero_lt_of_lt inside)
    omega

/-! ### A store between operations -/

/-- A store under full sync whose disk lacks nothing of it. -/
structure Standing (s : Store F) (disk : Disk F) (schema : Schema) (orderingKey : Nat)
    (p : Ledger F → Prop) : Prop where
  schema : s.schema = schema
  orderingKey : s.orderingKey = orderingKey
  full : s.Full
  stamped : s.Stamped
  held : ∃ segments past flushed live, s.Held disk segments past flushed live ∧
    Rowless (s.pending disk live) ∧
    p (s.ledger segments)

theorem Logged.settled_rowless (logged : s.Logged disk segments past flushed live)
    (rowless : Rowless (s.pending disk live)) :
    s.settledLedger disk segments live = s.ledger segments := by
  have counts : ∀ unit ∈ live, unit.rows ≠ [] → unit.Counts (committedOf disk s.generation) :=
      fun unit member filled => by
    by_contra uncounted
    exact filled (rowless unit (mem_pending.mpr ⟨member, uncounted⟩))
  rw [settledLedger, settled_rows counts, logged.log.rows]
  rfl

/-- The next coordinate is one that no delete log commits. -/
theorem Logged.fresh (logged : s.Logged disk segments past flushed live)
    (sound : s.Sound disk segments past)
    (stamped : s.Stamped) : ¬ Committed disk s.generation s.watermark := by
  intro committed
  rcases logged.witnessed _ committed with born | ⟨rows, filled, member⟩ | ⟨id, killed⟩
  · exact absurd (sound.below _ (List.mem_append_left _ born)) (Nat.lt_irrefl _)
  · exact absurd (sound.below _ (List.mem_append_right _ (logged.log.shared _ rows member filled)))
      (Nat.lt_irrefl _)
  · exact absurd (stamped id _ killed) (Nat.lt_irrefl _)

variable {allow : World F → Call F → Outcome → Prop} {crash : World F → Prop} {p : Ledger F → Prop}

theorem Standing.mono {q : Ledger F → Prop} (standing : s.Standing disk schema orderingKey p)
    (weaken : ∀ ledger, p ledger → q ledger) : s.Standing disk schema orderingKey q := by
  obtain ⟨segments, past, flushed, live, held, rowless, holds⟩ := standing.held
  exact ⟨standing.schema, standing.orderingKey, standing.full, standing.stamped,
    segments, past, flushed, live, held, rowless, weaken _ holds⟩

theorem Standing.falls (standing : s.Standing disk schema orderingKey p) (survivors : Nat)
    (torn : Bool) :
    Fallen (disk.crash survivors torn) schema orderingKey [] p := by
  obtain ⟨segments, past, flushed, live, held, rowless, holds⟩ := standing.held
  have logged := held.logged standing.full
  have recovers : disk.Recovers s.schema s.orderingKey (s.pending disk live) (· = s.ledger segments) :=
    logged.recovers held.sound (logged.settled_rowless rowless)
  rw [standing.schema, standing.orderingKey] at recovers
  exact ((recovers.rowless rowless).fallen survivors torn).mono fun ledger same => same ▸ holds

/-- An operation whose calls succeed leads from a standing store to a standing store. -/
theorem wp_performStanding {post : Except StorageError Nat → Store F → World F → Prop}
    (standing : s.Standing disk schema orderingKey p) (sure : Sure allow) (unblocked : s.Unblocked op)
    (filled : ∀ rows victims, op = .supersede rows victims → rows ≠ [])
    (safe : ∀ w', (∀ survivors torn, Fallen (w'.disk.crash survivors torn) schema orderingKey []
      fun ledger => ∃ before, p before ∧
      ledger ∈ Event.after orderingKey (.interrupted op) before) → crash w')
    (done : ∀ result s' w', s'.Standing w'.disk schema orderingKey
      (fun ledger => ∃ before, p before ∧
      ledger ∈ Event.after orderingKey (.finished op result) before) → post result s' w') :
    Fallible.wp backend allow crash op.perform post s ⟨disk, []⟩ := by
  obtain ⟨rfl, rfl, full, stamped, segments, past, flushed, live, held, rowless, holds⟩ := standing
  have logged := held.logged full
  refine wp_perform (w := ⟨disk, []⟩) held sure (fun w' recovers => safe w' fun survivors torn => ?_) ?_
  · refine (((recovers full).rowless rowless).fallen survivors torn).mono fun ledger which =>
      ⟨_, holds, ?_⟩
    rcases which with settles | before | after | ⟨early, -⟩
    · exact List.mem_cons.mpr (.inl (settles.trans (logged.settled_rowless rowless)))
    · exact List.mem_cons.mpr (.inl before)
    · exact List.mem_cons.mpr (.inr (List.mem_singleton.mpr after))
    · exact absurd early (logged.fresh held.sound stamped)
  · intro result s' w' segments' past' flushed' live' effect held'
    obtain ⟨schema, orderingKey, -⟩ := effect.frame
    exact done result s' w' {
      schema
      orderingKey
      full := effect.full.mpr full
      stamped := effect.stamped full.logs stamped filled
      held := ⟨segments', past', flushed', live', held', effect.rowless held full rowless, _, holds,
        effect.acknowledged held full unblocked⟩ }

end Store

/-! ### Runs -/

/-- A supersession has a replacement and a victim. -/
def Op.Filled : Op F → Prop
  | .supersede replacements victims => replacements ≠ [] ∧ victims ≠ []
  | _ => True

instance : DecidablePred (@Op.Filled F)
  | .supersede _ _ => instDecidableAnd
  | .append _ => instDecidableTrue
  | .tombstone _ => instDecidableTrue
  | .flush => instDecidableTrue
  | .compact => instDecidableTrue

/-- Operations that no failing call answers and no full buffer blocks. -/
def Unblocking : Rules F where
  asks store _ op := op.Filled ∧ store.Unblocked op
  allows _ := NoFailure

/-- Opening the disk, whatever the options, ends in a store whose live rows are those that the
events acknowledge, read through its slots or through a snapshot. -/
def Recovering (schema : Schema) (orderingKey : Nat) (events : List (Event F)) (disk : Disk F) : Prop :=
  ∀ chosen : StoreOptions, chosen.walSync = .full →
    (∃ fresh : Store F, Store.unopened schema orderingKey chosen = .ok fresh) →
    ∃ store w, Program.complete backend .ok (Store.persistentWith schema orderingKey chosen)
      ⟨disk, []⟩ = (.ok store, w) ∧
      ∃ ledger ∈ acknowledged orderingKey events, store.liveRows w.disk = ledger.liveRows ∧
        ∀ handles, store.snapshot = .ok handles → store.snapshotRows w.disk = .ok ledger.liveRows

/-- A store at rest, or a disk to open, with a ledger that the events acknowledge. -/
def AcknowledgedAt (schema : Schema) (orderingKey : Nat) (events : List (Event F)) : Situation F → Prop
  | .up store disk => store.Standing disk schema orderingKey (· ∈ acknowledged orderingKey events)
  | .down disk => Fallen disk schema orderingKey [] (· ∈ acknowledged orderingKey events)

theorem wp_bootStanding {allow : World F → Call F → Outcome → Prop} {crash : World F → Prop}
    {chosen : StoreOptions}
    {disk : Disk F} {p : Ledger F → Prop} {post : Except StorageError (Store F) → World F → Prop}
    (fallen : Fallen disk schema orderingKey [] p) (full : chosen.walSync = .full)
    (stops : ∀ w, (∀ survivors torn, Fallen (w.disk.crash survivors torn) schema orderingKey [] p) →
      crash w)
    (fails : ∀ e w, (∀ survivors torn, Fallen (w.disk.crash survivors torn) schema orderingKey [] p) →
      (Store.unopened schema orderingKey chosen : Except _ (Store F)) = .error e ∨
      Store.Fails allow ⟨disk, []⟩ →
      post (.error e) w)
    (done : ∀ store w, store.Standing w.disk schema orderingKey p → post (.ok store) w) :
    Program.wp backend allow crash (Store.persistentWith schema orderingKey chosen) post
      ⟨disk, []⟩ := by
  refine Store.wp_boot fallen full (fun image steady holds => ?_) stops fails
    fun fresh image store w made opens steady holds => ?_
  · rwa [Image.settledLedger_steady steady]
  · obtain ⟨-, schema', orderingKey', sync, -, -⟩ := Store.unopened_unfilled made
    rw [full] at sync
    refine done store w {
      schema := opens.schema.trans schema'
      orderingKey := opens.orderingKey.trans orderingKey'
      full := opens.full sync
      stamped := opens.stamped
      held := ⟨image.visible, image.past, [], image.replay, opens.held, ?_, by rwa [opens.ledger]⟩ }
    intro unit member
    obtain ⟨replayed, uncounted⟩ := Store.mem_pending.mp member
    by_contra filled
    have counts := (steady unit replayed filled).resolve_right (by simp)
    refine uncounted ((Replayed.counts_congr (fun sequence => ?_) unit).mp counts)
    rw [mem_committedOf, opens.committed]

/-- Where no call fails and no full buffer blocks, a crash at any point loses nothing that was
acknowledged and tears nothing that was in flight. -/
theorem Run.fallen {disk : Disk F}
    (run : Run Unblocking schema orderingKey (·.walSync = .full) NoFailure events (.down disk)) :
    Fallen disk schema orderingKey [] (· ∈ acknowledged orderingKey events) := by
  refine Run.invariant (AcknowledgedAt schema orderingKey) ?_ ?_ ?_ ?_ run
  · exact fun disk blank => .inl ⟨blank, List.mem_singleton.mpr rfl⟩
  · rintro events store disk op standing ⟨filled, unblocked⟩
    refine Store.wp_performStanding standing sure_noFailure unblocked
      (fun rows victims same => ?_) ?_ ?_
    · subst same
      exact filled.1
    · exact fun w fallen survivors torn => (fallen survivors torn).mono fun ledger =>
        mem_acknowledged.mpr
    · exact fun result store' w standing => standing.mono fun ledger => mem_acknowledged.mpr
  · exact fun events store disk survivors torn standing =>
        (standing.falls survivors torn).mono fun ledger holds =>
      mem_acknowledged.mpr ⟨ledger, holds, List.mem_singleton.mpr rfl⟩
  · intro events disk chosen fallen full
    refine wp_bootStanding fallen full ?_ ?_ ?_
    · exact fun w fallen survivors torn => (fallen survivors torn).mono fun ledger holds =>
        mem_acknowledged.mpr ⟨ledger, holds, List.mem_singleton.mpr rfl⟩
    · exact fun e w fallen _ survivors torn => (fallen survivors torn).mono fun ledger holds =>
        mem_acknowledged.mpr ⟨ledger, holds, List.mem_singleton.mpr rfl⟩
    · exact fun store w standing => standing.mono fun ledger holds =>
        mem_acknowledged.mpr ⟨ledger, holds, List.mem_singleton.mpr rfl⟩

/-- An open of a fallen disk ends in a store that shows what was acknowledged. -/
theorem Fallen.recovers {disk : Disk F}
    (fallen : Fallen disk schema orderingKey [] (· ∈ acknowledged orderingKey events)) :
    Recovering schema orderingKey events disk := by
  rintro chosen full ⟨fresh, made⟩
  have ends : Program.wp backend Always (fun _ => True) (Store.persistentWith schema orderingKey chosen)
      (fun result w => ∃ store, result = .ok store ∧ store.Standing w.disk schema orderingKey
        (· ∈ acknowledged orderingKey events)) ⟨disk, []⟩ := by
    refine wp_bootStanding fallen full (fun _ _ => trivial) (fun e w _ fails => ?_)
        fun store w standing =>
      ⟨store, rfl, standing⟩
    rcases fails with refused | failed
    · rw [made] at refused
      cases refused
    · exact (sure_always.fails failed).elim
  obtain ⟨store, same, standing⟩ := Program.complete_meets ends fun _ _ => rfl
  obtain ⟨segments, past, flushed, live, held, rowless, holds⟩ := standing.held
  refine ⟨store, _, Prod.ext same rfl, _, holds, ?_, fun handles taken => ?_⟩
  · rw [Store.liveRows, held.sound.shown]
  · rw [held.sound.snapshotRows taken, Store.liveRows, held.sound.shown]

/-! ### A blocked append -/

def tagged : Schema := ⟨[.new "at" .i64 false, .new "tag" .key true]⟩

/-- A store that flushes every row at once. -/
def eager : StoreOptions := ⟨some 1, none, .full⟩

/-- A row whose flush is refused: the append returns an error, and the row is in the log. -/
def blocked : Option (List (Event UInt64) × Store UInt64 × Disk UInt64) := do
  let (store, disk) ← openTable tagged 0 eager .empty
  rehearse (fun _ _ op => op.Filled) (fun _ _ _ outcome => outcome = .ok)
    [(.append [.i64 1, .null], [])] store disk

/-- Where a full buffer may block, a row comes back whose append was answered with an error. -/
theorem blocked_recovers : ¬ ∀ (events : List (Event UInt64)) (disk : Disk UInt64),
    Run ⟨fun _ _ op => op.Filled, fun _ => NoFailure⟩ tagged 0
      (·.walSync = .full) NoFailure events (.down disk) →
      Recovering tagged 0 events disk := by
  intro claim
  obtain ⟨⟨store, disk⟩, opened⟩ : ∃ table,
      openTable tagged 0 eager (.empty : Disk UInt64) = some table :=
    Option.isSome_iff_exists.mp (by decide +kernel)
  obtain ⟨⟨more, after, disk'⟩, played⟩ : ∃ result, blocked = some result :=
    Option.isSome_iff_exists.mp (by decide +kernel)
  have nothing : blocked.map (fun (events, _) => acknowledged 0 (.opened :: events ++ [.lost])) =
      some [[]] := by
    decide +kernel
  have returns : blocked.bind
      (fun (_, _, disk) => (openTable tagged 0 eager (disk.crash 0 false)).map fun (store, disk) =>
    store.liveRows disk) = some [[.i64 1, .null]] := by decide +kernel
  rw [played] at nothing returns
  rw [blocked, opened] at played
  have run : Run ⟨fun _ _ op => op.Filled, fun _ => NoFailure⟩ tagged 0
    (·.walSync = .full) NoFailure [.opened]
      (.up store disk) := .boot (.blank fun _ => rfl) (Boot.completes rfl (fun _ _ => .inl rfl) opened)
  have life : Life ⟨fun _ _ op => op.Filled, fun _ => NoFailure⟩ (.up store disk) more
      (.up after disk') :=
    Life.rehearsed (by simp) (by simp [NoFailure]) .start played
  obtain ⟨store', w, reopened, ledger, member, shows, -⟩ :=
    claim _ _ ((run.lives life).step (.lose 0 false)) eager rfl
    ⟨_, rfl⟩
  have empty : acknowledged 0 ([.opened] ++ more ++ [.lost]) = [[]] := Option.some.inj nothing
  rw [empty] at member
  obtain rfl := List.mem_singleton.mp member
  have found : openTable tagged 0 eager (disk'.crash 0 false) = some (store', w.disk) := by
    unfold openTable
    rw [reopened]
  simp only [Option.bind_some, found, Option.map_some] at returns
  rw [shows] at returns
  cases returns

end TallyDB
