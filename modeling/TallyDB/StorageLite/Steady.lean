import TallyDB.StorageLite.Supersede
import TallyDB.StorageLite.Generation

/-!
# Stores at rest, in every mode

A steady store is sound and its files lie where its manifest says, whatever its log holds and
whatever failed before. The rules below hold under any permission.
-/

namespace TallyDB

open Crash

variable {F : Type} [F64 F] {allow : World F → Call F → Outcome → Prop} {crash : World F → Prop}
variable {s s' : Store F} {w : World F} {disk other : Disk F} {segments past : List (Segment F)}

namespace Store

theorem Filed.frame (filed : s.Filed disk segments past)
    (same : ∀ name, name ≠ .wal → s.Owns past name → other.get name = disk.get name) :
    s.Filed other segments past where
  layout := filed.layout.frame fun name inside => same name (by rintro rfl; exact inside)
    (by cases name <;> simp_all [InLayout, Owns])
  killedDurable := filed.killedDurable
  leftover bare base object held := filed.leftover bare base object
    ((same (.segment s.generation base) (by simp) rfl).symm.trans held)

structure Steady (store : Store F) (disk : Disk F) (segments past : List (Segment F)) : Prop where
  sound : store.Sound disk segments past
  filed : store.persistent = true → store.Filed disk segments past

namespace Steady

theorem frame (steady : s.Steady disk segments past)
    (same : ∀ name, name ≠ .wal → s.Owns past name → other.get name = disk.get name) :
    s.Steady other segments past where
  sound := steady.sound.frame fun name reads => same name (by rintro rfl; exact reads)
    (by cases name <;> simp_all [Reads, Owns])
  filed stored := (steady.filed stored).frame same

theorem others (steady : s.Steady disk segments past)
    (same : ∀ name, name ≠ .wal → other.get name = disk.get name) :
    s.Steady other segments past := steady.frame fun name different _ => same name different

theorem withWal (steady : s.Steady disk segments past) (writer : Option Nat) :
    ({ s with wal := writer }).Steady disk segments past where
  sound := steady.sound.withWal writer
  filed stored :=
    have filed := steady.filed stored
    ⟨filed.layout, filed.killedDurable, filed.leftover⟩

theorem replays {units : List (Replayed F)} (steady : s.Steady disk segments past)
    (replays : s.Replays units s') :
    s'.Steady disk segments past where
  sound := steady.sound.replays replays
  filed stored := by
    obtain ⟨buffer, knowledge, rows, same⟩ := replays.frame
    subst same
    have filed := steady.filed stored
    exact ⟨filed.layout, filed.killedDurable, filed.leftover⟩

theorem killing {w' : World F} {ids : List Nat} {stamp superseding : Nat}
    (steady : s.Steady w.disk segments past)
    (mortal : s.Mortal ids) (wrote : s.Wrote ⟨ids, stamp, superseding⟩ w w') :
    (s.killing ids stamp).Steady w'.disk segments past where
  sound := steady.sound.killing mortal wrote
  filed stored := (steady.filed stored).killing mortal stored wrote

theorem consume (steady : s.Steady disk segments past) :
    (s.consumeSequence s.rows).Steady disk segments past where
  sound := steady.sound.consume
  filed stored :=
    have filed := steady.filed stored
    ⟨filed.layout, filed.killedDurable, filed.leftover⟩

end Steady

/-! ### Resetting the log -/

section Reset

variable {post : Except StorageError Unit → Store F → World F → Prop}

/-- A reset changes the log's file and the writer, whether it ends well or not. -/
theorem wp_resetWalSteady (steady : s.Steady w.disk segments past)
    (safe : ∀ w', s.Steady w'.disk segments past → crash w')
    (ends : ∀ result w' writer, writer.isSome = s.wal.isSome →
      (∀ name, name ≠ .wal → w'.disk.get name = w.disk.get name) →
      ({ s with wal := writer }).Steady w'.disk segments past →
      post result { s with wal := writer } w') :
    Fallible.wp backend allow crash resetWal post s w := by
  simp only [resetWal, Fallible.wp_bind, Fallible.wp_read, Fallible.wp_when]
  refine ⟨fun logs => ?_, fun _ => ends (.ok ()) w s.wal rfl (fun _ _ => rfl) steady⟩
  simp only [Io.wp_write]
  refine ⟨safe w steady, fun _ => ?_, fun left _ => ends _ _ s.wal rfl (fun _ _ => rfl) steady⟩
  have others : ∀ name, name ≠ .wal →
      (w.did (.write .wal (.log (.fresh s.generation s.rows []))) .ok).disk.get name =
        w.disk.get name :=
    fun name different => Disk.get_publish_other different
  have reset := steady.others others
  simp only [Io.wp_openLog]
  refine ⟨safe _ reset, fun _ => ?_, fun left _ => ends _ _ s.wal rfl others reset⟩
  have held : (w.did (.write .wal (.log (.fresh s.generation s.rows []))) .ok).disk.get .wal =
      some (.log _) :=
    (Disk.get_publish_log _).trans (if_pos rfl)
  rw [held]
  exact ends (.ok ()) _ (some _) (by simp [logs]) others (reset.withWal _)

end Reset

/-! ### Logging -/

section Log

variable {post : Except StorageError Unit → Store F → World F → Prop} {row : Row F}

omit [F64 F] in
theorem wp_syncOnly {writer : Nat} (safe : crash w)
    (ends : ∀ result w', LogOnly w w' → post result s w') :
    Fallible.wp backend allow crash (Io.sync writer) post s w :=
  Io.wp_sync.mpr ⟨safe, fun _ => ends _ _ (.sync w writer .ok),
    fun left _ => ends _ _ (.sync w writer (.err left))⟩

omit [F64 F] in
theorem wp_appendOnly {writer : Nat} {entry : WalEntry F} (safe : crash w)
    (ends : ∀ result w', LogOnly w w' → post result s w') :
    Fallible.wp backend allow crash (Io.append writer entry) post s w :=
  Io.wp_append.mpr ⟨safe, fun _ => ends _ _ (.append w writer entry .ok),
    fun left _ => ends _ _ (.append w writer entry (.err left))⟩

omit [F64 F] in
theorem wp_walAppendOnly (safe : ∀ w', LogOnly w w' → crash w')
    (ends : ∀ result w', LogOnly w w' → post result s w') :
    Fallible.wp backend allow crash (walAppend row) post s w := by
  simp only [walAppend, Fallible.wp_bind, Fallible.wp_read]
  cases s.wal with
  | none => exact ends (.ok ()) w (.refl w)
  | some writer =>
    simp only [Fallible.wp_bind]
    refine wp_appendOnly (safe w (.refl w)) fun result w₁ only₁ => ?_
    cases result with
    | error e => exact ends _ _ only₁
    | ok _ =>
      have synced (w₂ : World F) (only₂ : LogOnly w w₂) : Fallible.wp backend allow crash
          (Io.sync writer) post s w₂ :=
        wp_syncOnly (safe w₂ only₂) fun result w₃ only₃ => ends result w₃ (only₂.trans only₃)
      cases s.walSync with
      | full => exact synced w₁ only₁
      | off => exact ends (.ok ()) w₁ only₁
      | group =>
        simp only [Fallible.wp_bind, Io.wp_elapsed]
        refine ⟨safe w₁ only₁, fun _ => ?_, fun left _ => ?_⟩
        · simp only [Fallible.when, if_true]
          exact synced _ (only₁.trans (.elapsed w₁ .ok))
        · simp only [Fallible.when, Bool.false_eq_true, if_false]
          exact ends (.ok ()) _ (only₁.trans (.elapsed w₁ (.err left)))

omit [F64 F] in
theorem wp_openBracketOnly {sequence replacements : Nat} (safe : crash w)
    (ends : ∀ result w', LogOnly w w' → post result s w') :
    Fallible.wp backend allow crash (openBracket sequence replacements) post s w := by
  simp only [openBracket, Fallible.wp_bind, Fallible.wp_read]
  cases s.wal with
  | none => exact ends (.ok ()) w (.refl w)
  | some writer => exact wp_appendOnly safe ends

end Log

/-! ### Flushing -/

section Flush

variable {post : Except StorageError Unit → Store F → World F → Prop} {segments' : List (Segment F)}

/-- What a flush makes of a store, without regard to its log. -/
abbrev Settles (s : Store F) (segments : List (Segment F)) (s' : Store F)
    (segments' : List (Segment F)) : Prop :=
  s.Flushes segments [] [] s' segments' [] []

theorem Settles.trans {first second : Store F} {segments₁ segments₂ : List (Segment F)}
    (one : s.Settles segments first segments₁) (two : first.Settles segments₁ second segments₂) :
    s.Settles segments second segments₂ := by
  cases one with
  | kept => exact two
  | moved segment sections writer flushed' frozen filled next logs old =>
    cases two with
    | kept => exact .moved segment sections writer _ frozen filled next logs old
    | moved segment' sections' writer' flushed'' frozen' filled' next' logs' old' => cases filled'

/-- The rule for a flush. It ends in the same store or with the buffer moved to a segment. -/
theorem wp_flushSteady (steady : s.Steady w.disk segments past)
    (safe : ∀ s' w' segments', s.Settles segments s' segments' →
      s'.Steady w'.disk segments' past → crash w')
    (ends : ∀ result s' w' segments', s.Settles segments s' segments' →
      s'.Steady w'.disk segments' past →
      (result = .ok () → s'.buffer.rows = []) → post result s' w') :
    Fallible.wp backend allow crash flush post s w := by
  have sound := steady.sound
  simp only [flush, Fallible.wp_bind, wp_refuseReadOnly sound.writable, Fallible.wp_read]
  cases filled : s.buffer.isEmpty with
  | true => exact ends _ s w segments .kept steady fun _ => isEmpty_iff.mp filled
  | false =>
    simp only [Bool.false_eq_true, if_false, Fallible.wp_bind, Fallible.wp_ofExcept]
    cases frozen : s.frozenBuffer with
    | error e => exact ends _ s w segments .kept steady (by simp)
    | ok segment =>
      have from_ := sound.frozen frozen
      have ok := sound.frozenOk from_ filled
      -- Once the segment is adopted, only the log's reset is left.
      have reset (sections : ManifestSections F) (w₂ : World F) 
          (next : sections.nextSequence = s.sections.nextSequence ∧
            sections.history = s.sections.history)
          (adopted : (s.flushedWith segment sections s.wal).Steady w₂.disk
            (segments ++ [segment]) past) :
          Fallible.wp backend allow crash resetWal post (s.flushedWith segment sections s.wal) w₂ := by
        refine wp_resetWalSteady adopted
          (fun w' => safe _ w' _ (.moved segment sections s.wal [] from_ filled next rfl (.inl rfl))) ?_
        exact fun result w' writer logs _ steady' => ends result _ w' _
          (.moved segment sections writer [] from_ filled next logs (.inl rfl)) steady' fun _ => rfl
      simp only [Fallible.wp_when, Fallible.wp_update]
      refine ⟨fun stored => ?_, fun memory => ?_⟩
      · simp only [publishSegment, Fallible.wp_bind, Fallible.wp_read, Io.wp_write]
        let name := ObjectName.segment s.generation segment.baseRowId
        let sections : ManifestSections F :=
          { s.sections with segments := s.sections.segments ++ [.of name segment] }
        let w₁ := w.did (.write name (.segment segment)) .ok
        let w₂ := w₁.did (.write .manifest (s.manifest sections)) .ok
        have first (other : ObjectName) (different : other ≠ .segment s.generation s.bufferBase) :
            w₁.disk.get other = w.disk.get other := by
          rw [← from_.base] at different
          exact Disk.get_publish_other different
        have held₁ : w₁.disk.get (.segment s.generation s.bufferBase) = some (.segment segment) := by
          rw [← from_.base]
          exact (Disk.get_publish (by simp)).trans (if_pos rfl)
        have second (other : ObjectName) (different : other ≠ .manifest) :
            w₂.disk.get other = w₁.disk.get other := Disk.get_publish_other different
        have held₂ : w₂.disk.get .manifest = some (s.manifest sections) :=
          (Disk.get_publish (by simp [manifest])).trans (if_pos rfl)
        have written : s.Steady w₁.disk segments past := by
          refine ⟨sound.frame fun other reads => first other ?_, fun stored =>
            (steady.filed stored).fileWritten sound from_.base ok first held₁⟩
          cases other with
          | segment generation base => exact sound.newFile reads
          | _ => simp
        refine ⟨safe s w segments .kept steady, fun _ => ?_,
          fun left _ => ends _ s _ segments .kept steady (by simp)⟩
        refine ⟨safe s _ segments .kept written, fun _ => ?_,
          fun left _ => ends _ s _ segments .kept written (by simp)⟩
        refine reset sections w₂ ⟨rfl, rfl⟩ ⟨?_, fun stored => ?_⟩
        · refine (written.sound.frame fun other reads => second other ?_).adoptFlushed from_ ok rfl
          rintro rfl
          exact reads
        · exact (steady.filed stored).adoptFlushed sound from_.base rfl
            (fun other file manifest => (second other manifest).trans (first other file))
            ((second _ (by simp)).trans held₁) held₂
      · exact reset s.sections w ⟨rfl, rfl⟩ ⟨sound.adoptFlushed from_ ok rfl, fun stored => by
          have off : s.persistent = true := stored
          rw [memory] at off
          cases off⟩

end Flush

end Store

end TallyDB
