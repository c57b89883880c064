import TallyDB.Crash.Fallible
import TallyDB.StorageLite.Format

/-!
# The backend

A backend publishes whole objects atomically and durably, and appends to one log whose
bytes are durable only once synced. Every call takes an outcome: it succeeds, or it fails
and, for a log append, leaves part of its record behind.
-/

namespace TallyDB

inductive Object (F : Type) where
  | manifest (manifest : Manifest F)
  | segment (segment : Segment F)
  | deleteLog (log : DeleteLog)
  | log (file : LogFile F)
  deriving DecidableEq

/-- What a failed append leaves in the log: none, some or all of its record. -/
inductive Leftover where
  | nothing | part | whole
  deriving DecidableEq, Repr

inductive Outcome where
  | ok
  | err (left : Leftover)
  deriving DecidableEq, Repr

inductive Call (F : Type) where
  | write (name : ObjectName) (object : Object F)
  | read (name : ObjectName)
  | list
  | remove (name : ObjectName)
  | openLog (name : ObjectName)
  | append (writer : Nat) (entry : WalEntry F)
  | sync (writer : Nat)
  /-- Whether the group-commit interval has passed since the last sync. -/
  | elapsed
  deriving DecidableEq

variable {F : Type}

abbrev Call.Resp : Call F → Type
  | .write _ _ => Except IoError Unit
  | .read _ => Except IoError (Object F)
  | .list => Except IoError (List ObjectName)
  | .remove _ => Except IoError Unit
  | .openLog _ => Except IoError Nat
  | .append _ _ => Except IoError Unit
  | .sync _ => Except IoError Unit
  | .elapsed => Bool

/-- The published objects, and the identity the next log file takes. -/
structure Disk (F : Type) where
  objects : AList fun _ : ObjectName => Object F
  nextId : Nat

namespace Disk

def empty : Disk F := ⟨∅, 0⟩

def get (disk : Disk F) (name : ObjectName) : Option (Object F) := disk.objects.lookup name

def names (disk : Disk F) : List ObjectName := disk.objects.keys

/-- Publishes `object` under `name`. A log is born as a new file, durable as published. -/
def publish (disk : Disk F) (name : ObjectName) (object : Object F) : Disk F :=
  match object with
  | .log file =>
    ⟨disk.objects.insert name (.log { file with id := disk.nextId, synced := file.frames.length }),
      disk.nextId + 1⟩
  | object => { disk with objects := disk.objects.insert name object }

def erase (disk : Disk F) (name : ObjectName) : Disk F :=
  { disk with objects := disk.objects.erase name }

/-- Updates the file a writer holds; a file no name reaches any more is lost either way. -/
def updateLog (disk : Disk F) (writer : Nat) (f : LogFile F → LogFile F) : Disk F :=
  match disk.get .wal with
  | some (.log file) =>
    if file.id = writer then { disk with objects := disk.objects.insert .wal (.log (f file)) }
    else disk
  | _ => disk

def appendLog (disk : Disk F) (writer : Nat) (frames : List (Option (WalEntry F))) : Disk F :=
  disk.updateLog writer fun file => { file with frames := file.frames ++ frames }

def syncLog (disk : Disk F) (writer : Nat) : Disk F :=
  disk.updateLog writer fun file => { file with synced := file.frames.length }

/-- A power loss: of the log's unsynced frames `survivors` remain, and the next one is torn
where `torn` says so. -/
def crash (disk : Disk F) (survivors : Nat) (torn : Bool) : Disk F :=
  match disk.get .wal with
  | some (.log file) =>
    let kept := file.frames.take (file.synced + survivors)
    let frames := if torn && kept.length < file.frames.length then kept ++ [none] else kept
    { disk with objects := disk.objects.insert .wal (.log { file with frames, synced := frames.length }) }
  | _ => disk

/-! What each change leaves under a name. -/

variable {disk : Disk F} {name other : ObjectName} {object : Object F}

@[simp] theorem get_empty : (empty : Disk F).get name = none := rfl

theorem get_insert (objects : AList fun _ : ObjectName => Object F) (nextId : Nat) :
    (⟨objects.insert name object, nextId⟩ : Disk F).get other =
      if other = name then some object else (⟨objects, nextId⟩ : Disk F).get other := by
  unfold get
  split
  · next same => rw [same, AList.lookup_insert]
  · next different => rw [AList.lookup_insert_ne different]

theorem get_publish_log (file : LogFile F) : (disk.publish name (.log file)).get other =
    if other = name then some (.log { file with id := disk.nextId, synced := file.frames.length })
    else disk.get other := get_insert _ _

theorem get_publish (plain : ∀ file, object ≠ .log file) :
    (disk.publish name object).get other = if other = name then some object else disk.get other := by
  cases object with
  | log file => exact absurd rfl (plain file)
  | _ => exact get_insert _ _

theorem get_publish_other (different : other ≠ name) : (disk.publish name object).get other =
      disk.get other := by
  cases object with
  | log file => rw [get_publish_log, if_neg different]
  | _ => rw [get_publish (by simp), if_neg different]

theorem get_erase : (disk.erase name).get other = if other = name then none else disk.get other := by
  unfold get erase
  split
  · next same => rw [same, AList.lookup_erase]
  · next different => rw [AList.lookup_erase_ne different]

theorem get_updateLog_other (writer : Nat) (f : LogFile F → LogFile F) (different : other ≠ .wal) :
    (disk.updateLog writer f).get other = disk.get other := by
  unfold updateLog
  split
  · split
    · exact (get_insert _ _).trans (if_neg different)
    · rfl
  · rfl

theorem get_updateLog {file : LogFile F} (f : LogFile F → LogFile F)
    (held : disk.get .wal = some (.log file)) :
    (disk.updateLog file.id f).get .wal = some (.log (f file)) := by
  unfold updateLog
  rw [held]
  simp only [if_true]
  exact (get_insert _ _).trans (if_pos rfl)

theorem get_crash_other (survivors : Nat) (torn : Bool) (different : other ≠ .wal) :
    (disk.crash survivors torn).get other = disk.get other := by
  unfold crash
  split
  · exact (get_insert _ _).trans (if_neg different)
  · rfl

theorem mem_names : name ∈ disk.names ↔ (disk.get name).isSome := by
  exact Iff.symm AList.lookup_isSome

end Disk

/-- The disk beside the calls made since the operation began, oldest first. -/
structure World (F : Type) where
  disk : Disk F
  trace : List (Call F × Outcome)

namespace World

def answer (disk : Disk F) : (c : Call F) → Outcome → Disk F × c.Resp
  | .write name object, .ok => (disk.publish name object, .ok ())
  | .write _ _, .err _ => (disk, .error (.backend .write))
  | .read name, .ok => (disk, match disk.get name with
    | some object => .ok object
    | none => .error (.notFound name))
  | .read _, .err _ => (disk, .error (.backend .read))
  | .list, .ok => (disk, .ok disk.names)
  | .list, .err _ => (disk, .error (.backend .list))
  | .remove name, .ok => match disk.get name with
    | some _ => (disk.erase name, .ok ())
    | none => (disk, .error (.notFound name))
  | .remove _, .err _ => (disk, .error (.backend .remove))
  | .openLog name, .ok => (disk, match disk.get name with
    | some (.log file) => .ok file.id
    | _ => .error (.notFound name))
  | .openLog _, .err _ => (disk, .error (.backend .openLog))
  | .append writer entry, .ok => (disk.appendLog writer [some entry], .ok ())
  | .append _ _, .err .nothing => (disk, .error (.backend .append))
  | .append writer _, .err .part => (disk.appendLog writer [none], .error (.backend .append))
  | .append writer entry, .err .whole =>
    (disk.appendLog writer [some entry], .error (.backend .append))
  | .sync writer, .ok => (disk.syncLog writer, .ok ())
  | .sync _, .err _ => (disk, .error (.backend .sync))
  | .elapsed, .ok => (disk, true)
  | .elapsed, .err _ => (disk, false)

/-- The world after a call. -/
def did (w : World F) (c : Call F) (outcome : Outcome) : World F :=
  ⟨(answer w.disk c outcome).1, w.trace ++ [(c, outcome)]⟩

end World

def backend : Crash.Semantics (Call F) Call.Resp (World F) Outcome where
  step w c outcome := (w.did c outcome, (World.answer w.disk c outcome).2)

/-- The permission of a backend that never fails; the clock may say either. -/
def NoFailure (_ : World F) (c : Call F) (outcome : Outcome) : Prop := outcome = .ok ∨ c = .elapsed

/-! ### Calls as computations -/

/-- A computation over the backend with a state of its own. -/
abbrev Io (F σ α : Type) := Crash.Fallible (Call F) Call.Resp σ StorageError α

namespace Io

open Crash (Fallible)

variable {σ : Type}

def lift {α : Type} : Except IoError α → Except StorageError α
  | .ok value => .ok value
  | .error e => .error (.io e)

def write (name : ObjectName) (object : Object F) : Io F σ Unit := do
  let result ← Fallible.perform (.write name object)
  Fallible.ofExcept (lift result)

def find (name : ObjectName) : Io F σ (Option (Object F)) := do
  let result : Except IoError (Object F) ← Fallible.perform (Call.read name)
  Fallible.ofExcept (match result with
    | .ok object => .ok (some object)
    | .error (.notFound _) => .ok none
    | .error e => .error (.io e))

def read (name : ObjectName) : Io F σ (Object F) := do
  let result ← Fallible.perform (.read name)
  Fallible.ofExcept (lift result)

def list : Io F σ (List ObjectName) := do
  let result ← Fallible.perform .list
  Fallible.ofExcept (lift result)

def remove (name : ObjectName) : Io F σ Unit := do
  let result ← Fallible.perform (.remove name)
  Fallible.ofExcept (lift result)

/-- Removes the object under `name` where there is one. -/
def discard (name : ObjectName) : Io F σ Unit := do
  let result : Except IoError Unit ← Fallible.perform (Call.remove name)
  Fallible.ofExcept (match result with
    | .error (.notFound _) => .ok ()
    | result => lift result)

def openLog (name : ObjectName) : Io F σ Nat := do
  let result ← Fallible.perform (.openLog name)
  Fallible.ofExcept (lift result)

def append (writer : Nat) (entry : WalEntry F) : Io F σ Unit := do
  let result ← Fallible.perform (.append writer entry)
  Fallible.ofExcept (lift result)

def sync (writer : Nat) : Io F σ Unit := do
  let result ← Fallible.perform (.sync writer)
  Fallible.ofExcept (lift result)

def elapsed : Io F σ Bool := Fallible.perform Call.elapsed

variable {allow : World F → Call F → Outcome → Prop} {crash : World F → Prop}
variable {s : σ} {w : World F}

/-- The two ways a call can go: it succeeds, or it fails and leaves `left` behind. -/
theorem forall_outcome {p : Outcome → Prop} : (∀ outcome, p outcome) ↔ p .ok ∧ ∀ left, p (.err left) :=
  ⟨fun all => ⟨all _, fun _ => all _⟩, fun ⟨ok, err⟩ outcome => by cases outcome <;> simp_all⟩

theorem wp_write {name : ObjectName} {object : Object F}
    {post : Except StorageError Unit → σ → World F → Prop} :
    Fallible.wp backend allow crash (write name object) post s w ↔
      crash w ∧ (allow w (.write name object) .ok →
          post (.ok ()) s (w.did (.write name object) .ok)) ∧
        ∀ left, allow w (.write name object) (.err left) →
          post (.error (.io (.backend .write))) s (w.did (.write name object) (.err left)) := by
  simp only [write, Fallible.wp_bind, Fallible.wp_perform, forall_outcome]
  rfl

theorem wp_find {name : ObjectName}
    {post : Except StorageError (Option (Object F)) → σ → World F → Prop} :
    Fallible.wp backend allow crash (find name) post s w ↔
      crash w ∧ (allow w (.read name) .ok →
          post (.ok (w.disk.get name)) s (w.did (.read name) .ok)) ∧
        ∀ left, allow w (.read name) (.err left) →
          post (.error (.io (.backend .read))) s (w.did (.read name) (.err left)) := by
  simp only [find, Fallible.wp_bind, Fallible.wp_perform, forall_outcome, backend, World.answer,
    Fallible.wp_ofExcept]
  cases w.disk.get name <;> rfl

theorem wp_read {name : ObjectName} {post : Except StorageError (Object F) → σ → World F → Prop} :
    Fallible.wp backend allow crash (read name) post s w ↔
      crash w ∧ (allow w (.read name) .ok →
          post (match w.disk.get name with
            | some object => .ok object
            | none => .error (.io (.notFound name))) s (w.did (.read name) .ok)) ∧
        ∀ left, allow w (.read name) (.err left) →
          post (.error (.io (.backend .read))) s (w.did (.read name) (.err left)) := by
  simp only [read, Fallible.wp_bind, Fallible.wp_perform, forall_outcome, backend, World.answer,
    Fallible.wp_ofExcept]
  cases w.disk.get name <;> rfl

theorem wp_list {post : Except StorageError (List ObjectName) → σ → World F → Prop} :
    Fallible.wp backend allow crash list post s w ↔
      crash w ∧ (allow w .list .ok → post (.ok w.disk.names) s (w.did .list .ok)) ∧
        ∀ left, allow w .list (.err left) →
          post (.error (.io (.backend .list))) s (w.did .list (.err left)) := by
  simp only [list, Fallible.wp_bind, Fallible.wp_perform, forall_outcome]
  rfl

theorem wp_remove {name : ObjectName} {post : Except StorageError Unit → σ → World F → Prop} :
    Fallible.wp backend allow crash (remove name) post s w ↔
      crash w ∧ (allow w (.remove name) .ok →
          post (if (w.disk.get name).isSome then .ok () else .error (.io (.notFound name))) s
            (w.did (.remove name) .ok)) ∧
        ∀ left, allow w (.remove name) (.err left) →
          post (.error (.io (.backend .remove))) s (w.did (.remove name) (.err left)) := by
  simp only [remove, Fallible.wp_bind, Fallible.wp_perform, forall_outcome, backend, World.answer,
    Fallible.wp_ofExcept]
  cases w.disk.get name <;> rfl

theorem wp_discard {name : ObjectName} {post : Except StorageError Unit → σ → World F → Prop} :
    Fallible.wp backend allow crash (discard name) post s w ↔
      crash w ∧ (allow w (.remove name) .ok → post (.ok ()) s (w.did (.remove name) .ok)) ∧
        ∀ left, allow w (.remove name) (.err left) →
          post (.error (.io (.backend .remove))) s (w.did (.remove name) (.err left)) := by
  simp only [discard, Fallible.wp_bind, Fallible.wp_perform, forall_outcome, backend, World.answer,
    Fallible.wp_ofExcept]
  cases w.disk.get name <;> rfl

theorem wp_openLog {name : ObjectName} {post : Except StorageError Nat → σ → World F → Prop} :
    Fallible.wp backend allow crash (openLog name) post s w ↔
      crash w ∧ (allow w (.openLog name) .ok →
          post (match w.disk.get name with
            | some (.log file) => .ok file.id
            | _ => .error (.io (.notFound name))) s (w.did (.openLog name) .ok)) ∧
        ∀ left, allow w (.openLog name) (.err left) →
          post (.error (.io (.backend .openLog))) s (w.did (.openLog name) (.err left)) := by
  simp only [openLog, Fallible.wp_bind, Fallible.wp_perform, forall_outcome, backend, World.answer,
    Fallible.wp_ofExcept]
  cases w.disk.get name with
  | none => rfl
  | some object => cases object <;> rfl

theorem wp_append {writer : Nat} {entry : WalEntry F}
    {post : Except StorageError Unit → σ → World F → Prop} :
    Fallible.wp backend allow crash (append writer entry) post s w ↔
      crash w ∧ (allow w (.append writer entry) .ok →
          post (.ok ()) s (w.did (.append writer entry) .ok)) ∧
        ∀ left, allow w (.append writer entry) (.err left) →
          post (.error (.io (.backend .append))) s (w.did (.append writer entry) (.err left)) := by
  simp only [append, Fallible.wp_bind, Fallible.wp_perform, forall_outcome]
  refine and_congr_right fun _ => and_congr_right fun _ => forall_congr' fun left => ?_
  cases left <;> rfl

theorem wp_sync {writer : Nat} {post : Except StorageError Unit → σ → World F → Prop} :
    Fallible.wp backend allow crash (sync writer) post s w ↔
      crash w ∧ (allow w (.sync writer) .ok → post (.ok ()) s (w.did (.sync writer) .ok)) ∧
        ∀ left, allow w (.sync writer) (.err left) →
          post (.error (.io (.backend .sync))) s (w.did (.sync writer) (.err left)) := by
  simp only [sync, Fallible.wp_bind, Fallible.wp_perform, forall_outcome]
  rfl

theorem wp_elapsed {post : Except StorageError Bool → σ → World F → Prop} :
    Fallible.wp backend allow crash elapsed post s w ↔
      crash w ∧ (allow w .elapsed .ok → post (.ok true) s (w.did .elapsed .ok)) ∧
        ∀ left, allow w .elapsed (.err left) → post (.ok false) s (w.did .elapsed (.err left)) := by
  simp only [elapsed, Fallible.wp_perform, forall_outcome]
  rfl

end Io

end TallyDB
