import TallyDB.StorageLite.Conduct
import TallyDB.StorageLite.Perform

/-!
# Where no call fails

With every call succeeding, an append or a supersession of valid rows ends well, or at the
flush of a buffer with a key column of nulls. What is buffered decides which.
-/

namespace TallyDB

open Crash

variable {F : Type} {allow : World F → Call F → Outcome → Prop} {s : Store F} {w : World F}

/-- No key column is null throughout; a freeze of nothing is no freeze. -/
def Schema.Freezes (schema : Schema) (rows : List (Row F)) : Prop :=
  rows = [] ∨ nullKey schema.fields rows = false

instance (schema : Schema) (rows : List (Row F)) : Decidable (schema.Freezes rows) := by
  unfold Schema.Freezes
  exact instDecidableOr

theorem nullKey_append {fields : List Field} {rows : List (Row F)} (more : List (Row F))
    (some : nullKey fields rows = false) :
    nullKey fields (rows ++ more) = false := by
  unfold nullKey at some ⊢
  simp only [List.any_eq_false, List.all_append, Bool.and_eq_true, not_and, decide_eq_true_eq] at some ⊢
  exact fun entry member key all _ => some entry member key all

namespace Store

/-- A store that is set up as another one and buffers `rows`. -/
structure Buffers (s s' : Store F) (rows : List (Row F)) : Prop where
  writable : s'.readOnly = false
  schema : s'.schema = s.schema
  threshold : s'.segmentRows = s.segmentRows
  persistent : s'.persistent = s.persistent
  logs : s'.wal.isSome = s.wal.isSome
  bufferSchema : s'.buffer.schema = s'.schema
  rows : s'.buffer.rows = rows

theorem Buffers.trans {s₁ s₂ : Store F} {rows rows' : List (Row F)} (first : s.Buffers s₁ rows)
    (second : s₁.Buffers s₂ rows') :
    s.Buffers s₂ rows' where
  writable := second.writable
  schema := second.schema.trans first.schema
  threshold := second.threshold.trans first.threshold
  persistent := second.persistent.trans first.persistent
  logs := second.logs.trans first.logs
  bufferSchema := second.bufferSchema
  rows := second.rows

theorem Sound.buffers [F64 F] {disk : Disk F} {segments past : List (Segment F)}
    (sound : s.Sound disk segments past) :
    s.Buffers s s.buffer.rows :=
  ⟨sound.writable, rfl, rfl, rfl, rfl, sound.bufferSchema, rfl⟩

theorem Buffers.self {s' : Store F} {rows : List (Row F)} (own : s.Buffers s' rows) :
    s'.Buffers s' rows :=
  ⟨own.writable, rfl, rfl, rfl, rfl, own.bufferSchema, own.rows⟩

theorem Buffers.valid {s' : Store F} {rows : List (Row F)} (own : s.Buffers s' rows)
    (same : s.buffer.schema = s.schema) (row : Row F) :
    s'.buffer.validate row = s.buffer.validate row := by
  rw [WriteBuffer.validate, WriteBuffer.validate, own.bufferSchema, own.schema, same]

/-- A call ends well, or at a buffer that cannot be frozen. -/
def Unfailing {α : Type} : Except StorageError α → Prop
  | .ok _ => True
  | .error e => ∃ column, e = .allNullKeyColumn column

/-- A call that ends well exactly where a freeze does. -/
structure Ends {α : Type} (freezes : Prop) (result : Except StorageError α) : Prop where
  unfailing : Unfailing result
  ok_iff : (∃ value, result = .ok value) ↔ freezes

theorem Ends.ok {α : Type} {freezes : Prop} {value : α} (holds : freezes) : Ends freezes (.ok value) :=
  ⟨trivial, iff_of_true ⟨_, rfl⟩ holds⟩

theorem Ends.imp {α : Type} {freezes freezes' : Prop} {result : Except StorageError α}
    (ends : Ends freezes result)
    (same : freezes ↔ freezes') : Ends freezes' result := ⟨ends.unfailing, ends.ok_iff.trans same⟩

theorem Ends.error {α β : Type} {freezes freezes' : Prop} {e : StorageError}
    (ends : Ends freezes (.error e : Except StorageError α))
    (only : freezes' → freezes) : Ends freezes' (.error e : Except StorageError β) := by
  refine ⟨ends.unfailing, iff_of_false ?_ fun holds => ?_⟩
  · rintro ⟨value, ok⟩
    cases ok
  · obtain ⟨value, ok⟩ := ends.ok_iff.mpr (only holds)
    cases ok

/-! ### Calls on the log -/

theorem wp_walAppendSure (sure : Sure allow) (row : Row F) :
    Fallible.wp backend allow (fun _ => True) (walAppend row)
      (fun result _ _ => result = .ok ()) s w := by
  have synced (writer : Nat) (w : World F) :
      Fallible.wp backend allow (fun _ => True) (Io.sync writer)
        (fun result _ _ => result = .ok ()) s w :=
    Io.wp_sync.mpr ⟨trivial, fun _ => rfl, fun left allowed => by cases sure _ _ _ allowed⟩
  simp only [walAppend, Fallible.wp_bind, Fallible.wp_read]
  cases s.wal with
  | none => rfl
  | some writer =>
    simp only [Fallible.wp_bind]
    refine Io.wp_append.mpr ⟨trivial, fun _ => ?_, fun left allowed => by cases sure _ _ _ allowed⟩
    cases s.walSync with
    | full => exact synced writer _
    | off => rfl
    | group =>
      simp only [Fallible.wp_bind, Io.wp_elapsed]
      refine ⟨trivial, fun _ => ?_, fun left _ => rfl⟩
      simp only [Fallible.when, if_true]
      exact synced writer _

theorem wp_openBracketSure (sure : Sure allow) (sequence replacements : Nat) :
    Fallible.wp backend allow (fun _ => True) (openBracket sequence replacements)
      (fun result own _ => result = .ok () ∧ own = s) s w := by
  simp only [openBracket, Fallible.wp_bind, Fallible.wp_read]
  cases s.wal with
  | none => exact ⟨rfl, rfl⟩
  | some writer =>
      exact Io.wp_append.mpr ⟨trivial, fun _ => ⟨rfl, rfl⟩, fun left allowed => by
          cases sure _ _ _ allowed⟩

theorem wp_resetWalSure (sure : Sure allow) : Fallible.wp backend allow (fun _ => True) resetWal
    (fun result s' _ => result = .ok () ∧ ∀ rows, s.Buffers s rows → s.Buffers s' rows) s w := by
  simp only [resetWal, Fallible.wp_bind, Fallible.wp_read, Fallible.wp_when, Io.wp_write, Io.wp_openLog]
  refine ⟨fun logged => ⟨trivial, fun _ => ⟨trivial, fun _ => ?_, fun left allowed => by
      cases sure _ _ _ allowed⟩,
    fun left allowed => by cases sure _ _ _ allowed⟩, fun _ => ⟨trivial, fun _ own => own⟩⟩
  have held : (w.did (.write .wal (.log (.fresh s.generation s.rows []))) .ok).disk.get .wal =
      some (.log _) :=
    (Disk.get_publish_log _).trans (if_pos rfl)
  rw [held]
  exact ⟨rfl, fun _ own => ⟨own.writable, rfl, rfl, rfl, logged.symm, own.bufferSchema, own.rows⟩⟩

/-! ### Flushes -/

variable [F64 F] {rows : List (Row F)}

theorem frozenBuffer_freezes (own : s.Buffers s rows) (filled : s.buffer.isEmpty = false) :
    (∃ segment, s.frozenBuffer = .ok segment) ↔ s.schema.Freezes rows := by
  have some : s.buffer.rows ≠ [] := by
    rintro none
    rw [WriteBuffer.isEmpty, WriteBuffer.len, none] at filled
    cases filled
  rw [frozenBuffer_ok_iff some, own.bufferSchema, ← own.rows]
  exact (or_iff_right some).symm

/-- A flush fails only at its freeze where no call fails. -/
theorem wp_flushSure (sure : Sure allow) (own : s.Buffers s rows) :
    Fallible.wp backend allow (fun _ => True) flush
      (fun result s' _ => Ends (s.schema.Freezes rows) result ∧ (result = .ok () → s.Buffers s' []))
        s w := by
  simp only [flush, Fallible.wp_bind, wp_refuseReadOnly own.writable, Fallible.wp_read]
  split
  · next empty =>
    have none : s.buffer.rows = [] := by simpa [WriteBuffer.isEmpty, WriteBuffer.len] using empty
    obtain rfl := own.rows.symm.trans none
    exact ⟨.ok (.inl rfl), fun _ => own⟩
  · next filled =>
    have freezes := frozenBuffer_freezes own (by simpa using filled)
    cases frozen : s.frozenBuffer with
    | error e =>
      refine ⟨⟨frozenBuffer_error frozen, iff_of_false ?_ fun holds => ?_⟩, fun ok => by cases ok⟩
      · rintro ⟨_, ok⟩
        cases ok
      · obtain ⟨segment, other⟩ := freezes.mpr holds
        rw [frozen] at other
        cases other
    | ok segment =>
      have reset (after : Store F) (w : World F) (same : s.Buffers after []) :
        Fallible.wp backend allow (fun _ => True) resetWal
          (fun result s' _ => Ends (s.schema.Freezes rows) result ∧
            (result = .ok () → s.Buffers s' [])) after w := by
        refine Fallible.wp_post (wp_resetWalSure sure) fun result s' w ended => ?_
        obtain ⟨rfl, kept⟩ := ended
        exact ⟨.ok (freezes.mp ⟨segment, frozen⟩), fun _ => same.trans (kept [] same.self)⟩
      simp only [Fallible.wp_bind, Fallible.wp_ofExcept, Fallible.wp_when, Fallible.wp_update,
        publishSegment, Fallible.wp_read, Io.wp_write]
      refine ⟨fun _ => ⟨trivial, fun _ => ⟨trivial, fun _ => reset _ _ ?_, ?_⟩, ?_⟩,
        fun _ => reset _ _ ?_⟩
      · exact ⟨own.writable, rfl, rfl, rfl, rfl, rfl, rfl⟩
      · exact fun left allowed => by cases sure _ _ _ allowed
      · exact fun left allowed => by cases sure _ _ _ allowed
      · exact ⟨own.writable, rfl, rfl, rfl, rfl, rfl, rfl⟩

/-- The rows left behind where a buffer of `rows` is flushed once it is full. -/
def overflow (s : Store F) (rows : List (Row F)) : List (Row F) :=
  if s.segmentRows ≤ rows.length then [] else rows

theorem wp_flushIfFullSure (sure : Sure allow) (own : s.Buffers s rows) :
    Fallible.wp backend allow (fun _ => True) flushIfFull (fun result s' _ =>
      Ends (s.segmentRows ≤ rows.length → s.schema.Freezes rows) result ∧
      (result = .ok () → s.Buffers s' (s.overflow rows))) s w := by
  simp only [flushIfFull, Fallible.wp_bind, Fallible.wp_read, Fallible.wp_when, decide_eq_true_eq,
    decide_eq_false_iff_not,
    WriteBuffer.len, own.rows]
  refine ⟨fun full => Fallible.wp_post (wp_flushSure sure own) fun result s' w ended => ?_,
    fun room => ⟨.ok fun full => absurd full room, ?_⟩⟩
  · rw [overflow, if_pos full]
    exact ⟨ended.1.imp (by simp [full]), ended.2⟩
  · rw [overflow, if_neg room]
    exact fun _ => own

/-! ### Appends -/

theorem wp_finishAppendSure (sure : Sure allow) (own : s.Buffers s rows) {row : Row F} {id : Nat}
    (valid : s.buffer.validate row = .ok ()) :
    Fallible.wp backend allow (fun _ => True) (finishAppend row id) (fun result s' _ =>
      Ends (s.segmentRows ≤ rows.length + 1 → s.schema.Freezes (rows ++ [row])) result ∧
        (∀ value, result = .ok value → s.Buffers s' (s.overflow (rows ++ [row])))) s w := by
  have grown : s.Buffers (s.taken row valid) (rows ++ [row]) :=
    ⟨own.writable, rfl, rfl, rfl, rfl, own.bufferSchema, congrArg (· ++ [row]) own.rows⟩
  simp only [finishAppend, Fallible.wp_bind]
  refine (wp_takeRow valid).mpr
    (Fallible.wp_post (wp_flushIfFullSure sure grown.self) fun result s' w ended => ?_)
  obtain ⟨ends, after⟩ := ended
  simp only [List.length_append, List.length_singleton] at ends
  cases result with
  | error e => exact ⟨ends.error fun freezes => freezes, fun value ok => by cases ok⟩
  | ok _ => exact ⟨.ok (ends.ok_iff.mp ⟨_, rfl⟩), fun _ _ => grown.trans (after rfl)⟩

/-! ### Supersessions -/

omit [F64 F] in
theorem wp_supersedeRowsSure (sure : Sure allow) (own : s.Buffers s rows) {sequence : Nat}
    {more : List (Row F)}
    (valid : ∀ row ∈ more, s.buffer.validate row = .ok ()) :
    Fallible.wp backend allow (fun _ => True) (Fallible.each (supersedeRow sequence) more)
      (fun result s' _ => result = .ok () ∧ s.Buffers s' (rows ++ more)) s w := by
  refine Fallible.wp_each (fun left own _ => ∃ done, more = done ++ left ∧
    s.Buffers own (rows ++ done)) ⟨[], rfl, by rwa [List.append_nil]⟩
    (fun row rest before w held => ?_) fun after _ held => ?_
  · obtain ⟨done, split, buffers⟩ := held
    have logs : Fallible.wp backend allow (fun _ => True) (walAppend row)
        (fun _ after w' => after = before ∧ LogOnly w w') before w :=
      wp_walAppendOnly (fun _ _ => trivial) fun _ w' only => ⟨rfl, only⟩
    simp only [supersedeRow, Fallible.wp_bind]
    refine Fallible.wp_mono (Fallible.wp_and logs (wp_walAppendSure sure row))
      (fun result after w₁ both => ?_) fun _ _ => trivial
    obtain ⟨⟨rfl, -⟩, rfl⟩ := both
    have accepted : after.buffer.validate row = .ok () := by
      rw [buffers.valid own.bufferSchema]
      exact valid row (split ▸ by simp)
    refine (wp_takeRowAt accepted).mpr ⟨done ++ [row], by rw [split, List.append_assoc]; rfl,
      buffers.trans ?_⟩
    refine ⟨buffers.writable, rfl, rfl, rfl, rfl, buffers.bufferSchema, ?_⟩
    rw [← List.append_assoc, ← buffers.rows]
    rfl
  · obtain ⟨done, split, buffers⟩ := held
    rw [List.append_nil] at split
    exact ⟨rfl, split ▸ buffers⟩

/-- A store that flushes the replacements of a supersession, having no log to sync. -/
def unlogged (s : Store F) : Bool := s.persistent && !s.wal.isSome

theorem wp_settleSure (sure : Sure allow) (own : s.Buffers s rows) :
    Fallible.wp backend allow (fun _ => True) settleReplacements (fun result s' _ =>
      Ends (s.unlogged = true → s.schema.Freezes rows) result ∧
      (result = .ok () → s.Buffers s' (if s.unlogged then [] else rows))) s w := by
  simp only [settleReplacements, Fallible.wp_bind, Fallible.wp_read, Fallible.wp_when]
  refine ⟨fun persistent => ?_, fun memory => ?_⟩
  · cases logs : s.wal with
    | some writer =>
      have off : s.unlogged = false := by simp [unlogged, logs]
      rw [off]
      exact Io.wp_sync.mpr
        ⟨trivial, fun _ => ⟨.ok (fun none => Bool.noConfusion none), fun _ => own⟩,
        fun left allowed => by cases sure _ _ _ allowed⟩
    | none =>
      have off : s.unlogged = true := by simp [unlogged, logs, persistent]
      simp only [Fallible.wp_when, off, if_true, forall_const]
      refine ⟨fun _ => wp_flushSure sure own, fun empty => ?_⟩
      have none : s.buffer.rows = [] := by simpa [WriteBuffer.isEmpty, WriteBuffer.len] using empty
      obtain rfl := own.rows.symm.trans none
      exact ⟨.ok (.inl rfl), own⟩
  · have off : s.unlogged = false := by simp [unlogged, memory]
    rw [off]
    exact ⟨.ok (fun none => Bool.noConfusion none), fun _ => own⟩

omit [F64 F] in
theorem wp_commitKillsSure (sure : Sure allow) (own : s.Buffers s rows) (ids : List Nat)
    (stampedAt superseding : Nat) :
    Fallible.wp backend allow (fun _ => True) (commitKills ids stampedAt superseding)
      (fun result s' _ => result = .ok () ∧ s.Buffers s' rows) s w := by
  simp only [commitKills, Fallible.wp_bind, Fallible.wp_read, Fallible.wp_when, Io.wp_write,
    Fallible.wp_update]
  refine ⟨fun _ => ⟨trivial, fun _ => ⟨trivial, ?_⟩, fun left allowed => by
      cases sure _ _ _ allowed⟩, fun _ => ⟨trivial, own⟩⟩
  exact ⟨own.writable, rfl, rfl, rfl, rfl, own.bufferSchema, own.rows⟩

/-- A supersession whose first row was logged ends well, or at one of its flushes. -/
theorem wp_finishSupersedeSure (sure : Sure allow) (own : s.Buffers s rows) {row : Row F}
    {rest : List (Row F)} {found : List Nat × Nat}
    (valid : ∀ own ∈ row :: rest, s.buffer.validate own = .ok ()) :
    Fallible.wp backend allow (fun _ => True) (finishSupersede (row :: rest) (some found))
      (fun result _ _ =>
      Ends (s.unlogged = true ∨ s.segmentRows ≤ (rows ++ row :: rest).length →
      s.schema.Freezes (rows ++ row :: rest)) result) s w := by
  obtain ⟨newly, sequence⟩ := found
  simp only [finishSupersede, Fallible.wp_bind]
  have first := valid row List.mem_cons_self
  have taken : s.Buffers (s.takenAt row sequence first) (rows ++ [row]) :=
    ⟨own.writable, rfl, rfl, rfl, rfl, own.bufferSchema, congrArg (· ++ [row]) own.rows⟩
  have later : ∀ own ∈ rest, (s.takenAt row sequence first).buffer.validate own = .ok () :=
    fun other member => valid other (List.mem_cons_of_mem _ member)
  refine (wp_takeRowAt first).mpr
    (Fallible.wp_post (wp_supersedeRowsSure sure taken.self later) fun result s₁ w took => ?_)
  obtain ⟨rfl, more⟩ := took
  have buffers₁ : s.Buffers s₁ (rows ++ row :: rest) := by
    have all := taken.trans more
    rwa [List.append_assoc] at all
  refine Fallible.wp_post (wp_settleSure sure buffers₁.self) fun result s₂ w settled => ?_
  obtain ⟨settles, after⟩ := settled
  have same : s₁.unlogged = s.unlogged := by rw [unlogged, unlogged, buffers₁.persistent, buffers₁.logs]
  rw [same, buffers₁.schema] at settles
  cases result with
  | error e => exact settles.error fun freezes off => freezes (.inl off)
  | ok _ =>
    have buffers₂ := buffers₁.trans (after rfl)
    refine Fallible.wp_post (wp_commitKillsSure sure buffers₂.self newly sequence sequence)
      fun result s₃ w committed => ?_
    obtain ⟨rfl, kept⟩ := committed
    have buffers₃ := buffers₂.trans kept
    have buried : s.Buffers (s₃.bury newly sequence)
        (if s₁.unlogged then [] else rows ++ row :: rest) :=
      ⟨buffers₃.writable, buffers₃.schema, buffers₃.threshold, buffers₃.persistent, buffers₃.logs,
        buffers₃.bufferSchema, buffers₃.rows⟩
    simp only [Fallible.wp_update]
    refine Fallible.wp_post (wp_flushIfFullSure sure buried.self) fun result s₄ w ended => ?_
    have ends := ended.1
    rw [buried.threshold, buried.schema, same] at ends
    have whole : Ends (s.unlogged = true ∨ s.segmentRows ≤ (rows ++ row :: rest).length →
        s.schema.Freezes (rows ++ row :: rest)) result := by
      refine ends.imp ?_
      by_cases off : s.unlogged = true
      · have early := settles.ok_iff.mp ⟨_, rfl⟩ off
        rw [if_pos off]
        exact iff_of_true (fun _ => .inl rfl) fun _ => early
      · rw [if_neg off, or_iff_right off]
    cases result with
    | error e => exact whole.error id
    | ok _ => exact .ok (whole.ok_iff.mp ⟨_, rfl⟩)

/-- What a supersession finds buffered: a buffered victim of a persistent store sends the buffer out
first. -/
def keptBuffer (s : Store F) (victims : List Nat) : List (Row F) :=
  if s.persistent && (s.newlyDead victims).any (s.bufferBase ≤ ·) then [] else s.buffer.rows

/-- A supersession of rows that is valid is prepared where no call fails. -/
theorem wp_prepareSure (sure : Sure allow) (own : s.Buffers s s.buffer.rows)
    (freezes : s.schema.Freezes s.buffer.rows) {row : Row F}
    {rest : List (Row F)} {victims : List Nat} (victim : victims ≠ [])
    (valid : validateRows s.buffer (row :: rest) = .ok ())
    (inside : ∀ id ∈ victims, id < s.rows) :
    Fallible.wp backend allow (fun _ => True) (prepareSupersede (row :: rest) victims)
      (fun result s' _ => (∃ found, result = .ok (some found)) ∧
        s.Buffers s' (s.keptBuffer victims)) s w := by
  have range : victims.find? (fun id => decide (s.rows ≤ id)) = none := by simpa using inside
  have core (first : Store F) (w : World F) (newly : List Nat)
    (buffers : s.Buffers first (s.keptBuffer victims)) :
      Fallible.wp backend allow (fun _ => True) (do
        let store ← Fallible.read
        let sequence := store.watermark
        openBracket sequence (row :: rest).length
        walAppend row
        return Option.some (newly, sequence))
      (fun result s' _ => (∃ found, result = .ok (Option.some found)) ∧
        s.Buffers s' (s.keptBuffer victims)) first w := by
    simp only [Fallible.wp_bind, Fallible.wp_read]
    refine Fallible.wp_post (wp_openBracketSure sure _ _) fun result s₁ w₁ ok => ?_
    obtain ⟨rfl, rfl⟩ := ok
    have logs : Fallible.wp backend allow (fun _ => True) (walAppend row)
        (fun _ after w' => after = s₁ ∧ LogOnly w₁ w') s₁ w₁ :=
      wp_walAppendOnly (fun _ _ => trivial) fun _ w' only => ⟨rfl, only⟩
    refine Fallible.wp_mono (Fallible.wp_and logs (wp_walAppendSure sure row))
      (fun result after w₂ both => ?_) fun _ _ => trivial
    obtain ⟨⟨rfl, -⟩, rfl⟩ := both
    exact ⟨⟨_, rfl⟩, buffers⟩
  simp only [prepareSupersede, Fallible.wp_bind, wp_refuseReadOnly own.writable, Fallible.wp_read]
  rw [if_neg (by simpa using victim)]
  simp only [Fallible.wp_bind, Fallible.wp_ofExcept, valid, range]
  rw [if_neg (by simp)]
  simp only [Fallible.wp_bind, Fallible.wp_when]
  refine ⟨fun buffered => Fallible.wp_post (wp_flushSure sure own) fun result s₁ w ended => ?_,
    fun durable => ?_⟩
  · obtain ⟨⟨⟩, rfl⟩ := ended.1.ok_iff.mpr freezes
    have kept : s.keptBuffer victims = [] := if_pos buffered
    simpa only [Fallible.wp_bind] using core s₁ w _ (kept ▸ ended.2 rfl)
  · have kept : s.keptBuffer victims = s.buffer.rows := if_neg (Bool.eq_false_iff.mp durable)
    simpa only [Fallible.wp_bind] using core s w _ (kept ▸ own)

theorem freezes_of_snapshot {handles : List (SegmentHandle F)} (own : s.Buffers s s.buffer.rows)
    (taken : s.snapshot = .ok handles) :
    s.schema.Freezes s.buffer.rows := by
  unfold snapshot at taken
  simp only at taken
  split at taken
  · next empty => exact .inl (by simpa [WriteBuffer.isEmpty, WriteBuffer.len] using empty)
  · next filled =>
    refine (frozenBuffer_freezes own (by simpa using filled)).mp ?_
    cases frozen : s.frozenBuffer with
    | error e =>
      rw [frozen] at taken
      cases taken
    | ok segment => exact ⟨segment, rfl⟩

/-- Where no call fails, a supersession of some rows is refused for its rows with nothing
touched, or ends well, or at one of its flushes. -/
theorem wp_supersedeSure {segments past : List (Segment F)}
    {post : Except StorageError Nat → Store F → World F → Prop} (sure : Sure allow)
    (steady : s.Steady w.disk segments past) (freezes : s.schema.Freezes s.buffer.rows)
    {rows : List (Row F)} {victims : List Nat}
    (filled : rows ≠ []) (victim : victims ≠ []) (inside : ∀ id ∈ victims, id < s.rows)
    (refused : ∀ e, validateRows s.buffer rows = .error e → post (.error e) s w)
    (ends : validateRows s.buffer rows = .ok () → ∀ result s' w', Ends (s.unlogged = true ∨
        s.segmentRows ≤ (s.keptBuffer victims ++ rows).length →
        s.schema.Freezes (s.keptBuffer victims ++ rows)) result → post result s' w') :
    Fallible.wp backend allow (fun _ => True) (supersede rows victims) post s w := by
  have own := steady.sound.buffers
  cases valid : validateRows s.buffer rows with
  | error e =>
    simp only [supersede, Fallible.wp_bind, wp_refuseReadOnly steady.sound.writable, Fallible.wp_read]
    rw [if_neg (by simpa using victim)]
    simp only [Fallible.wp_bind, Fallible.wp_ofExcept, valid]
    exact refused e valid
  | ok _ =>
    obtain ⟨row, rest, rfl⟩ := List.exists_cons_of_ne_nil filled
    rw [supersede_eq]
    refine Fallible.wp_bind.mpr
      (Fallible.wp_post (wp_prepareSure sure own freezes victim valid inside)
      fun result middle w₁ prepared => ?_)
    obtain ⟨⟨found, rfl⟩, buffers⟩ := prepared
    have accepted : ∀ own ∈ row :: rest, middle.buffer.validate own = .ok () := fun other member => by
      rw [buffers.valid own.bufferSchema]
      exact validateRows_ok valid other member
    refine Fallible.wp_post (wp_finishSupersedeSure sure buffers.self accepted)
      fun result s' w' ended => ?_
    have same : middle.unlogged = s.unlogged := by
      rw [unlogged, unlogged, buffers.persistent, buffers.logs]
    rw [same, buffers.threshold, buffers.schema] at ended
    exact ends valid result s' w' ended

end Store

end TallyDB
