import TallyDB.StorageLite.Shown

/-!
# Opening a fallen disk

A disk that lost power is blank or holds an image. An open under full sync ends in a store
over that image, or leaves a disk that is no worse.
-/

namespace TallyDB

open Crash

variable {F : Type} [F64 F] {allow : World F → Call F → Outcome → Prop} {crash : World F → Prop}
variable {disk : Disk F} {schema : Schema} {orderingKey : Nat} {live : List (Replayed F)}
  {p q : Ledger F → Prop}

/-- A disk without power: nothing was ever published, or it holds an image whose ledger
meets `p` and whose uncommitted units are among `live`. -/
def Fallen (disk : Disk F) (schema : Schema) (orderingKey : Nat) (live : List (Replayed F))
    (p : Ledger F → Prop) : Prop :=
  disk.Blank ∧ p [] ∨ disk.Calm ∧ ∃ image : Image F, image.On disk schema orderingKey ∧
    image.Within live ∧ p image.ledger

theorem Fallen.mono (fallen : Fallen disk schema orderingKey live p)
    (weaken : ∀ ledger, p ledger → q ledger) :
    Fallen disk schema orderingKey live q := by
  rcases fallen with ⟨blank, holds⟩ | ⟨calm, image, on, inside, holds⟩
  · exact .inl ⟨blank, weaken _ holds⟩
  · exact .inr ⟨calm, image, on, inside, weaken _ holds⟩

theorem Disk.Recovers.fallen (recovers : disk.Recovers schema orderingKey live p) (survivors : Nat)
    (torn : Bool) :
    Fallen (disk.crash survivors torn) schema orderingKey live p := by
  obtain ⟨image, on, inside, holds⟩ := recovers survivors torn
  exact .inr ⟨disk.calm_crash survivors torn, image, on, inside, holds⟩

omit [F64 F] in
theorem Disk.Blank.falls (blank : disk.Blank) (survivors : Nat) (torn : Bool) :
    (disk.crash survivors torn).Blank := by
  unfold Disk.crash
  rw [blank .wal]
  exact blank

/-- Units without rows are never missed. -/
theorem Disk.Recovers.rowless (recovers : disk.Recovers schema orderingKey live p)
    (rowless : Rowless live) :
    disk.Recovers schema orderingKey [] p := fun survivors torn => by
  obtain ⟨image, on, inside, holds⟩ := recovers survivors torn
  exact ⟨image, on, fun unit member filled =>
      .inl ((inside unit member filled).resolve_right fun among =>
    filled (rowless unit among)), holds⟩

omit [F64 F] in
theorem settled_rows {committed : List Nat} {units : List (Replayed F)}
    (steady : ∀ unit ∈ units, unit.rows ≠ [] → unit.Counts committed) :
    unitRows (settled committed units) = unitRows units := by
  induction units using List.reverseRecOn with
  | nil => rfl
  | append_singleton units last _ =>
    rw [settled_concat]
    split
    · rfl
    · next uncounted =>
      have bare : last.rows = [] := by
        by_contra filled
        exact uncounted (steady last (by simp) filled)
      simp [bare]

theorem Image.settledLedger_steady {image : Image F} (steady : image.Within []) :
    image.settledLedger = image.ledger := by
  rw [Image.settledLedger, settled_rows fun unit member filled =>
    (steady unit member filled).resolve_right (by simp)]
  rfl

namespace Store

omit [F64 F] in
theorem wp_persistentWith {chosen : StoreOptions}
    {post : Except StorageError (Store F) → World F → Prop} {w : World F}
    (refused : ∀ e, (unopened schema orderingKey chosen : Except _ (Store F)) = .error e →
      post (.error e) w)
    (opens : ∀ fresh : Store F, unopened schema orderingKey chosen = .ok fresh →
      Fallible.wp backend allow crash openBackend
      (fun result store w' => post (result.map fun _ => store) w') fresh w) :
    Program.wp backend allow crash (persistentWith schema orderingKey chosen) post w := by
  unfold persistentWith
  cases made : (unopened schema orderingKey chosen : Except _ (Store F)) with
  | error e => exact refused e made
  | ok fresh => exact Program.wp_bind.mpr (opens fresh made)

theorem wp_boot {chosen : StoreOptions} {post : Except StorageError (Store F) → World F → Prop}
    (fallen : Fallen disk schema orderingKey live p) (full : chosen.walSync = .full)
    (settles : ∀ image : Image F, image.Within live → p image.ledger → p image.settledLedger)
    (stops : ∀ w, (∀ survivors torn,
      Fallen (w.disk.crash survivors torn) schema orderingKey live p) → crash w)
    (fails : ∀ e w, (∀ survivors torn, Fallen (w.disk.crash survivors torn) schema orderingKey live p) →
      (unopened schema orderingKey chosen : Except _ (Store F)) = .error e ∨
      Fails allow ⟨disk, []⟩ → post (.error e) w)
    (done : ∀ (fresh : Store F) (image : Image F) store w,
      unopened schema orderingKey chosen = .ok fresh →
      fresh.Opens image store w.disk → image.Within live → p image.ledger → post (.ok store) w) :
    Program.wp backend allow crash (persistentWith schema orderingKey chosen) post ⟨disk, []⟩ := by
  refine wp_persistentWith (fun e refused => fails e _ ?_ (.inl refused)) fun fresh made => ?_
  · intro survivors torn
    rcases fallen with ⟨blank, holds⟩ | ⟨calm, image, on, inside, holds⟩
    · exact .inl ⟨blank.falls survivors torn, holds⟩
    · exact .inr ⟨disk.calm_crash survivors torn, image,
        on.congr (calm.get_crash survivors torn), inside, holds⟩
  · obtain ⟨unfilled, schema', orderingKey', sync, generation, sections⟩ := unopened_unfilled made
    rw [full] at sync
    subst schema' orderingKey'
    rcases fallen with ⟨blank, holds⟩ | ⟨calm, image, on, inside, holds⟩
    · have fallen {w : World F} (which : w.disk.Blank ∨ (fresh.walSync = .full →
          w.disk.Recovers fresh.schema fresh.orderingKey [] (· = []))) (survivors : Nat) (torn : Bool) :
          Fallen (w.disk.crash survivors torn) fresh.schema fresh.orderingKey live p := by
        rcases which with blank | recovers
        · exact .inl ⟨blank.falls survivors torn, holds⟩
        · exact (((recovers sync).widen (List.nil_subset _)).fallen survivors torn).mono
            fun ledger same => same ▸ holds
      refine wp_openBackend_blank unfilled sections generation blank
        (fun w which => stops w (fallen which)) ?_ ?_
      · exact fun e store w _ failed which => fails _ w (fallen which) (.inr failed)
      · refine fun store w _ opens => done fresh .blank store w made opens ?_ ?_
        · simp [Image.Within, Image.blank_replay]
        · rwa [Image.blank_ledger]
    · have fallen {w : World F} (recovers : fresh.walSync = .full →
          w.disk.Recovers fresh.schema fresh.orderingKey image.pending image.Leaves)
          (survivors : Nat) (torn : Bool) :
          Fallen (w.disk.crash survivors torn) fresh.schema fresh.orderingKey live p := by
        obtain ⟨left, on', inside', which⟩ := recovers sync survivors torn
        refine .inr ⟨w.disk.calm_crash survivors torn, left, on', fun unit member filled => ?_, ?_⟩
        · refine (inside' unit member filled).imp_right fun among => ?_
          obtain ⟨replayed, uncounted⟩ := List.mem_filter.mp among
          exact (inside unit replayed filled).resolve_left (by simpa using uncounted)
        · rcases which with same | same
          · exact same ▸ holds
          · exact same ▸ settles image inside holds
      refine wp_openBackend unfilled on calm (fun w recovers => stops w (fallen recovers)) ?_ ?_
      · exact fun e store w _ failed recovers => fails _ w (fallen recovers) (.inr failed)
      · exact fun store w _ opens => done fresh image store w made opens inside holds

omit [F64 F] in
theorem recoveredWatermark_killed {recorded : Option Nat} {tombstones : Tombstones}
    {slots : List (SegmentSlot F)} {id stamp : Nat}
    (member : (id, stamp) ∈ tombstones) (positive : 0 < stamp) :
    ∃ next, recoveredWatermark recorded tombstones slots = some next ∧ stamp < next := by
  have largest : stamp ≤ (tombstones.map (·.2)).foldl max 0 :=
    (foldl_max_le_iff.mp (Nat.le_refl _)).2 stamp (List.mem_map.mpr ⟨_, member, rfl⟩)
  have killed : 0 < (tombstones.map (·.2)).foldl max 0 := Nat.lt_of_lt_of_le positive largest
  refine ⟨_, by rw [recoveredWatermark, if_pos (by simp [killed])], ?_⟩
  refine Nat.lt_of_lt_of_le ?_ (foldl_max_le_iff.mp (Nat.le_refl _)).1
  rw [if_pos killed]
  omega

theorem Opens.full {fresh store : Store F} {image : Image F} (opens : fresh.Opens image store disk)
    (sync : fresh.walSync = .full) : store.Full where
  persistent := opens.persistent
  walSync := opens.walSync.trans sync
  logs := by
    rw [Option.isSome_iff_ne_none]
    intro none
    have off := opens.logs.mp none
    rw [sync] at off
    cases off

end Store

end TallyDB
