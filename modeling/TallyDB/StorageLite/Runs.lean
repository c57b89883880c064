import TallyDB.StorageLite.Reopen

/-!
# Runs

A run alternates lifetimes of a process with power losses: a table is opened, takes
operations one by one, and loses power between two of them or between two calls of one.
-/

namespace TallyDB

open Crash

variable {F : Type}

/-! ### Operations -/

inductive Op (F : Type) where
  | append (row : Row F)
  | tombstone (ids : List Nat)
  | supersede (replacements : List (Row F)) (victims : List Nat)
  | flush
  | compact
  deriving DecidableEq

namespace Op

/-- An operation as the store performs it. A flush and a compaction answer nothing. -/
def perform [F64 F] : Op F → StoreM F Nat
  | append row => Store.append row
  | tombstone ids => Store.tombstone ids
  | supersede replacements victims => Store.supersede replacements victims
  | flush => do
    Store.flush
    return 0
  | compact => do
    Store.compact
    return 0

/-- What an operation that is applied makes of the ledger. -/
def apply [F64 F] (orderingKey : Nat) : Op F → Ledger F → Ledger F
  | append row, ledger => ledger ++ [(row, false)]
  | tombstone ids, ledger => ledger.mark ids
  | supersede replacements victims, ledger => ledger.mark victims ++ replacements.map (·, false)
  | flush, ledger => ledger
  | compact, ledger => ledger.compacted orderingKey

end Op

/-! ### Situations and steps -/

/-- A table that a process holds open, or one on a disk alone. -/
inductive Situation (F : Type) where
  | up (store : Store F) (disk : Disk F)
  | down (disk : Disk F)

inductive Event (F : Type) where
  /-- An operation returned. -/
  | finished (op : Op F) (result : Except StorageError Nat)
  /-- The power was lost within an operation. -/
  | interrupted (op : Op F)
  /-- The power was lost between operations. -/
  | lost
  | opened
  /-- An open returned an error, or was cut short. -/
  | unopened

/-- The operations that a run asks for and the outcomes its calls may have. -/
structure Rules (F : Type) where
  asks : Store F → Disk F → Op F → Prop
  allows : Op F → World F → Call F → Outcome → Prop

variable [F64 F]

/-- A step of a process that holds a table open. -/
inductive Step (rules : Rules F) : Situation F → Event F → Situation F → Prop where
  | finish {store store' : Store F} {disk : Disk F} {op : Op F} {plan rest : List Outcome}
      {result : Except StorageError Nat} {w : World F} (asked : rules.asks store disk op)
      (admitted : Program.Admits backend (rules.allows op) (op.perform store) ⟨disk, []⟩ plan)
      (ran : Program.run backend (op.perform store) ⟨disk, []⟩ plan =
        .returned (result, store') w rest) :
      Step rules (.up store disk) (.finished op result) (.up store' w.disk)
  | interrupt {store : Store F} {disk : Disk F} {op : Op F} {plan : List Outcome} {w : World F}
      (survivors : Nat) (torn : Bool) (asked : rules.asks store disk op)
      (admitted : Program.Admits backend (rules.allows op) (op.perform store) ⟨disk, []⟩ plan)
      (stopped : Program.run backend (op.perform store) ⟨disk, []⟩ plan = .stopped w) :
      Step rules (.up store disk) (.interrupted op) (.down (w.disk.crash survivors torn))
  | lose {store : Store F} {disk : Disk F} (survivors : Nat) (torn : Bool) :
      Step rules (.up store disk) .lost (.down (disk.crash survivors torn))

/-- An attempt to open a table. A failed one leaves the disk to the next. -/
inductive Boot (schema : Schema) (orderingKey : Nat) (options : StoreOptions → Prop)
    (allow : World F → Call F → Outcome → Prop) : Situation F → Event F → Situation F → Prop where
  | opens {disk : Disk F} {chosen : StoreOptions} {plan rest : List Outcome}
      {store : Store F} {w : World F}
      (fits : options chosen)
      (admitted : Program.Admits backend allow (Store.persistentWith schema orderingKey chosen)
        ⟨disk, []⟩ plan)
      (ran : Program.run backend (Store.persistentWith schema orderingKey chosen) ⟨disk, []⟩ plan =
        .returned (.ok store) w rest) :
      Boot schema orderingKey options allow (.down disk) .opened (.up store w.disk)
  | fails {disk : Disk F} {chosen : StoreOptions} {plan rest : List Outcome}
      {e : StorageError} {w : World F}
      (survivors : Nat) (torn : Bool) (fits : options chosen)
      (admitted : Program.Admits backend allow (Store.persistentWith schema orderingKey chosen)
        ⟨disk, []⟩ plan)
      (ran : Program.run backend (Store.persistentWith schema orderingKey chosen) ⟨disk, []⟩ plan =
        .returned (.error e) w rest) :
      Boot schema orderingKey options allow (.down disk) .unopened (.down (w.disk.crash survivors torn))
  | stops {disk : Disk F} {chosen : StoreOptions} {plan : List Outcome} {w : World F}
      (survivors : Nat) (torn : Bool) (fits : options chosen)
      (admitted : Program.Admits backend allow (Store.persistentWith schema orderingKey chosen)
        ⟨disk, []⟩ plan)
      (stopped : Program.run backend (Store.persistentWith schema orderingKey chosen) ⟨disk, []⟩
        plan = .stopped w) :
      Boot schema orderingKey options allow (.down disk) .unopened (.down (w.disk.crash survivors torn))

/-- One lifetime of a process, from a situation on. -/
inductive Life (rules : Rules F) (start : Situation F) : List (Event F) → Situation F → Prop where
  | start : Life rules start [] start
  | step {events : List (Event F)} {event : Event F} {before after : Situation F}
      (life : Life rules start events before) (step : Step rules before event after) :
      Life rules start (events ++ [event]) after

/-- Any number of lifetimes, from a blank disk on. -/
inductive Run (rules : Rules F) (schema : Schema) (orderingKey : Nat) (options : StoreOptions → Prop)
    (allow : World F → Call F → Outcome → Prop) : List (Event F) → Situation F → Prop where
  | blank {disk : Disk F} (blank : disk.Blank) : Run rules schema orderingKey options allow
      [] (.down disk)
  | step {events : List (Event F)} {event : Event F} {before after : Situation F}
      (run : Run rules schema orderingKey options allow events before)
        (step : Step rules before event after) :
      Run rules schema orderingKey options allow (events ++ [event]) after
  | boot {events : List (Event F)} {event : Event F} {before after : Situation F}
      (run : Run rules schema orderingKey options allow events before)
      (boot : Boot schema orderingKey options allow before event after) :
      Run rules schema orderingKey options allow (events ++ [event]) after

theorem Run.lives {rules : Rules F} {schema : Schema} {orderingKey : Nat}
    {options : StoreOptions → Prop}
    {allow : World F → Call F → Outcome → Prop} {events more : List (Event F)}
    {start after : Situation F}
    (run : Run rules schema orderingKey options allow events start)
    (life : Life rules start more after) :
    Run rules schema orderingKey options allow (events ++ more) after := by
  induction life with
  | start => rwa [List.append_nil]
  | step _ step ih =>
    rw [← List.append_assoc]
    exact ih.step step

/-! ### Rehearsals -/

/-- Operations one after the other, each under a plan, where each is asked and permitted. -/
def rehearse (asks : Store F → Disk F → Op F → Bool)
    (permits : Op F → World F → Call F → Outcome → Bool) :
    List (Op F × List Outcome) → Store F → Disk F → Option (List (Event F) × Store F × Disk F)
  | [], store, disk => some ([], store, disk)
  | (op, plan) :: rest, store, disk =>
    if asks store disk op then do
      let (out, w) ← Program.follow backend (permits op) .ok (op.perform store) ⟨disk, []⟩ plan
      let (events, after) ← rehearse asks permits rest out.2 w.disk
      return (.finished op out.1 :: events, after)
    else none

theorem Life.rehearsed {rules : Rules F} {asks : Store F → Disk F → Op F → Bool}
    {permits : Op F → World F → Call F → Outcome → Bool}
    (asked : ∀ store disk op, asks store disk op = true → rules.asks store disk op)
    (permitted : ∀ op w c outcome, permits op w c outcome = true → rules.allows op w c outcome)
    {start : Situation F}
    {events more : List (Event F)} {store after : Store F} {disk disk' : Disk F}
    {deeds : List (Op F × List Outcome)}
    (life : Life rules start events (.up store disk))
    (played : rehearse asks permits deeds store disk = some (more, after, disk')) :
    Life rules start (events ++ more) (.up after disk') := by
  induction deeds generalizing events more store disk with
  | nil =>
    cases played
    rwa [List.append_nil]
  | cons deed rest ih =>
    obtain ⟨op, plan⟩ := deed
    rw [rehearse] at played
    split at played
    · next allowed =>
      obtain ⟨⟨out, w⟩, followed, played⟩ := Option.bind_eq_some_iff.mp played
      obtain ⟨⟨events', after'⟩, later, same⟩ := Option.bind_eq_some_iff.mp played
      cases same
      obtain ⟨plan', admitted, ran⟩ := Program.follow_runs (permitted op) followed
      have step := life.step (.finish (asked _ _ _ allowed) admitted ran)
      rw [List.append_cons]
      exact ih step later
    · cases played

theorem Step.rehearsed {rules : Rules F} {asks : Store F → Disk F → Op F → Bool}
    {permits : Op F → World F → Call F → Outcome → Bool}
    (asked : ∀ store disk op, asks store disk op = true → rules.asks store disk op)
    (permitted : ∀ op w c outcome, permits op w c outcome = true → rules.allows op w c outcome)
    {store after : Store F}
    {disk disk' : Disk F} {op : Op F} {plan : List Outcome} {events : List (Event F)}
    (played : rehearse asks permits [(op, plan)] store disk = some (events, after, disk')) :
    ∃ result, events = [.finished op result] ∧ Step rules (.up store disk) (.finished op result)
      (.up after disk') := by
  rw [rehearse] at played
  split at played
  · next allowed =>
    obtain ⟨⟨out, w⟩, followed, played⟩ := Option.bind_eq_some_iff.mp played
    cases played
    obtain ⟨plan', admitted, ran⟩ := Program.follow_runs (permitted op) followed
    exact ⟨out.1, rfl, .finish (asked _ _ _ allowed) admitted ran⟩
  · cases played

/-- The store that an open makes where every call succeeds. -/
def openTable (schema : Schema) (orderingKey : Nat) (chosen : StoreOptions) (disk : Disk F) : Option
      (Store F × Disk F) :=
  match Program.complete backend .ok (Store.persistentWith schema orderingKey chosen) ⟨disk, []⟩ with
  | (.ok store, w) => some (store, w.disk)
  | (.error _, _) => none

omit [F64 F] in
theorem Boot.completes {schema : Schema} {orderingKey : Nat} {options : StoreOptions → Prop}
    {allow : World F → Call F → Outcome → Prop} {disk disk' : Disk F} {chosen : StoreOptions}
    {store : Store F}
    (fits : options chosen) (permitted : ∀ w c, allow w c .ok)
    (made : openTable schema orderingKey chosen disk = some (store, disk')) :
    Boot schema orderingKey options allow (.down disk) .opened (.up store disk') := by
  obtain ⟨plan, admitted, ran⟩ := @Program.run_complete _ _ _ _ _ backend allow .ok
    (Store.persistentWith schema orderingKey chosen) ⟨disk, []⟩ permitted
  unfold openTable at made
  split at made
  · next store w same =>
    cases made
    rw [same] at ran
    exact .opens fits admitted ran
  · cases made

/-! ### Invariants -/

/-- An invariant of every lifetime: each operation keeps it, at its end and at every point
where it may stop. -/
theorem Life.invariant {rules : Rules F} {start : Situation F}
    (inv : List (Event F) → Situation F → Prop)
    (first : inv [] start)
    (performs : ∀ events store disk op, inv events (.up store disk) → rules.asks store disk op →
      Fallible.wp backend (rules.allows op)
        (fun w => ∀ survivors torn,
        inv (events ++ [.interrupted op]) (.down (w.disk.crash survivors torn))) op.perform
        (fun result store' w => inv (events ++ [.finished op result]) (.up store' w.disk))
        store ⟨disk, []⟩)
    (loses : ∀ events store disk survivors torn, inv events (.up store disk) →
      inv (events ++ [.lost]) (.down (disk.crash survivors torn)))
    {events : List (Event F)} {situation : Situation F} (life : Life rules start events situation) :
    inv events situation := by
  induction life with
  | start => exact first
  | step life step ih =>
    cases step with
    | finish asked admitted ran =>
      have ends := Program.wp_sound (performs _ _ _ _ ih asked) admitted
      rw [ran] at ends
      exact ends
    | interrupt survivors torn asked admitted stopped =>
      have ends := Program.wp_sound (performs _ _ _ _ ih asked) admitted
      rw [stopped] at ends
      exact ends survivors torn
    | lose survivors torn => exact loses _ _ _ _ _ ih

theorem Run.invariant {rules : Rules F} {schema : Schema} {orderingKey : Nat}
    {options : StoreOptions → Prop}
    {allow : World F → Call F → Outcome → Prop} (inv : List (Event F) → Situation F → Prop)
    (first : ∀ disk : Disk F, disk.Blank → inv [] (.down disk))
    (performs : ∀ events store disk op, inv events (.up store disk) → rules.asks store disk op →
      Fallible.wp backend (rules.allows op)
        (fun w => ∀ survivors torn,
        inv (events ++ [.interrupted op]) (.down (w.disk.crash survivors torn))) op.perform
        (fun result store' w => inv (events ++ [.finished op result]) (.up store' w.disk))
        store ⟨disk, []⟩)
    (loses : ∀ events store disk survivors torn, inv events (.up store disk) →
      inv (events ++ [.lost]) (.down (disk.crash survivors torn)))
    (boots : ∀ events disk chosen, inv events (.down disk) → options chosen →
      Program.wp backend allow
        (fun w => ∀ survivors torn, inv (events ++ [.unopened]) (.down (w.disk.crash survivors torn)))
        (Store.persistentWith schema orderingKey chosen)
        (fun result w => match result with
          | .ok store => inv (events ++ [.opened]) (.up store w.disk)
          | .error _ =>
              ∀ survivors torn, inv (events ++ [.unopened])
                (.down (w.disk.crash survivors torn))) ⟨disk, []⟩)
    {events : List (Event F)} {situation : Situation F}
    (run : Run rules schema orderingKey options allow events situation) : inv events situation := by
  induction run with
  | blank blank => exact first _ blank
  | step run step ih =>
    cases step with
    | finish asked admitted ran =>
      have ends := Program.wp_sound (performs _ _ _ _ ih asked) admitted
      rw [ran] at ends
      exact ends
    | interrupt survivors torn asked admitted stopped =>
      have ends := Program.wp_sound (performs _ _ _ _ ih asked) admitted
      rw [stopped] at ends
      exact ends survivors torn
    | lose survivors torn => exact loses _ _ _ _ _ ih
  | boot run boot ih =>
    cases boot with
    | opens fits admitted ran =>
      have ends := Program.wp_sound (boots _ _ _ ih fits) admitted
      rw [ran] at ends
      exact ends
    | fails survivors torn fits admitted ran =>
      have ends := Program.wp_sound (boots _ _ _ ih fits) admitted
      rw [ran] at ends
      exact ends survivors torn
    | stops survivors torn fits admitted stopped =>
      have ends := Program.wp_sound (boots _ _ _ ih fits) admitted
      rw [stopped] at ends
      exact ends survivors torn

end TallyDB
