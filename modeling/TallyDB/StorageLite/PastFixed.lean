import TallyDB.StorageLite.Structure

/-!
# The past is fixed

What was known at a spent coordinate stays known as it was. Where no operation slips, the
last spent coordinate shows the live rows, and every operation that adds or kills a row uses
up exactly the next one.
-/

namespace TallyDB

open Crash Chronicle

variable {F : Type} [F64 F] {s s' : Store F} {disk disk' : Disk F}
  {segments segments' past past' : List (Segment F)}
variable {op : Op F} {result : Except StorageError Nat} {schema : Schema} {orderingKey cut : Nat}

namespace Store

/-- What an operation that succeeds makes of the chronicle: it uses up a coordinate if it adds
or kills a row, and leaves the chronicle still if it does neither. -/
theorem Conduct.advances {answer : Nat}
    (conduct : s.Conduct segments past op (.ok answer) s' segments' past')
    (sound : s.Sound disk segments past) (firm : ¬ s.Slips op)
    (busy : s.killsOf op ≠ [] ∨ rowsOf op ≠ []) :
    (s.book segments past).Advances (named (s.killsOf op) (s.latestFacts segments)) (rowsOf op)
    (s'.book segments' past') := by
  cases conduct with
  | still _ _ _ _ settles answer =>
    obtain ⟨idle, -⟩ := answer.resolve_left nofun
    cases op with
    | append row => exact idle.elim
    | tombstone ids => exact (busy.elim (absurd idle ·) (absurd rfl ·))
    | supersede rows victims => exact (busy.elim (absurd idle.2 ·) (absurd idle.1 ·))
    | flush => exact (busy.elim (absurd rfl ·) (absurd rfl ·))
    | compact => exact idle.elim
  | append row valid _ _ _ settles answer => exact sound.turns_appended valid settles
  | tombstone ids first _ newly settles mortal =>
    exact sound.turns_killed (fun id member => (mem_newlyDead.mp member).2) settles
  | supersede rows victims _ first taken committed _ segments₁ segments₂ _ _ settles takes after
      inside mortal finally_ answer =>
    obtain ⟨turns, mark⟩ :=
      sound.turns_superseded (fun id member => (mem_newlyDead.mp member).2) inside settles
      takes after finally_
    refine ⟨turns, mark.trans (if_neg fun bare => firm ⟨bare, ?_⟩)⟩
    exact busy.resolve_right (absurd bare ·)
  | compact all merged writer _ pieces merges logs answer =>
      exact (busy.elim (absurd rfl ·) (absurd rfl ·))

/-- The last spent coordinate shows the live rows. -/
theorem Chronicled.asOf_last (chronicled : s.Chronicled segments past)
    (sound : s.Sound disk segments past) :
    s.asOfRows disk (s.nextSequence - 1) = s.snapshotRows disk := by
  cases taken : s.snapshot with
  | error e =>
    rw [asOfRows, snapshotRows, knowledgeSnapshot, taken]
    rfl
  | ok handles =>
    rw [sound.asOfRows taken, sound.snapshotRows taken, sound.liveRows_living, knownAt, sound.bookOn]
    exact congrArg _ chronicled.dated.asOf_last

theorem Steady.ran {allow : World F → Call F → Outcome → Prop} {plan rest : List Outcome} {w : World F}
    (steady : s.Steady disk segments past)
    (admitted : Program.Admits backend allow (op.perform s) ⟨disk, []⟩ plan)
    (ran : Program.run backend (op.perform s) ⟨disk, []⟩ plan = .returned (result, s') w rest) :
    ∃ segments' past', s.Conduct segments past op result s' segments' past' ∧
    s'.Steady w.disk segments' past' := by
  have conducts : Fallible.wp backend allow (fun _ => True) op.perform
    (fun result s' w => ∃ segments' past',
      s.Conduct segments past op result s' segments' past' ∧
      s'.Steady w.disk segments' past') s ⟨disk, []⟩ :=
    wp_conduct (w := ⟨disk, []⟩) steady (fun _ _ _ _ _ _ _ => trivial)
        fun _ _ _ segments' past' conduct steady' =>
      ⟨segments', past', conduct, steady'⟩
  have ends := Program.wp_sound conducts admitted
  rwa [ran] at ends

end Store

/-- In one lifetime, the book of a later store follows that of an earlier one. -/
theorem Life.follows {rules : Rules F} {events : List (Event F)} {situation : Situation F}
    (steady : s.Steady disk segments past)
    (life : Life rules (.up s disk) events situation) : situation.Holds fun s' disk' =>
      ∃ segments' past',
      s'.Steady disk' segments' past' ∧ (s.book segments past).Follows (s'.book segments' past') := by
  refine Life.invariant (fun _ situation => situation.Holds fun s' disk' => ∃ segments' past',
    s'.Steady disk' segments' past' ∧
    (s.book segments past).Follows (s'.book segments' past')) ?_ ?_ (fun _ _ _ _ _ _ => trivial) life
  · exact ⟨segments, past, steady, .start⟩
  rintro events s₁ disk₁ op ⟨segments₁, past₁, steady₁, follows⟩ asked
  refine Store.wp_conduct (w := ⟨disk₁, []⟩) steady₁ (fun _ _ _ _ _ _ _ _ _ => trivial) ?_
  intro result s' w' segments' past' conduct steady'
  refine ⟨segments', past', steady', ?_⟩
  rcases conduct.turns steady₁.sound steady'.sound with still | ⟨ids, born, -, -, turns, -⟩
  · exact follows.still still
  · exact follows.turns turns

/-- What the past keeps of a store and of the runs from it on. -/
structure PastFixed (rules : Rules F) (s : Store F) (disk : Disk F) : Prop where
  last : s.asOfRows disk (s.nextSequence - 1) = s.snapshotRows disk
  spends : ∀ op answer s' disk', Step rules (.up s disk) (.finished op (.ok answer)) (.up s' disk') →
    s.killsOf op ≠ [] ∨ Store.rowsOf op ≠ [] →
      (s.bookOn disk).Advances (named (s.killsOf op) (s.latestFacts (s.segmentsOn disk)))
        (Store.rowsOf op) (s'.bookOn disk')
  kept : ∀ events s' disk', Life rules (.up s disk) events (.up s' disk') →
    ∀ cut < s.nextSequence, ∀ rows rows',
    s.asOfRows disk cut = .ok rows → s'.asOfRows disk' cut = .ok rows' → rows'.Perm rows

/-- Whatever a later run asks, it keeps what a spent coordinate shows. -/
theorem Store.Steady.kept {rules : Rules F} {events : List (Event F)}
    (steady : s.Steady disk segments past)
    (life : Life rules (.up s disk) events (.up s' disk')) (spent : cut < s.nextSequence)
    {rows rows' : List (Row F)}
    (before : s.asOfRows disk cut = .ok rows) (after : s'.asOfRows disk' cut = .ok rows') :
    rows'.Perm rows := by
  obtain ⟨segments', past', steady', follows⟩ := life.follows steady
  rw [steady.sound.asOfRows_book before, steady'.sound.asOfRows_book after]
  exact follows.asOf.2 cut spent

/-- Where no operation slips, the past is fixed in every state that a run reaches. -/
theorem Reached.pastFixed {options : StoreOptions → Prop} {allow : World F → Call F → Outcome → Prop}
    (reached : Reached Firm schema orderingKey options allow (.up s disk)) : PastFixed Firm s disk := by
  obtain ⟨-, -, segments, past, steady, chronicled⟩ :=
    reached.upheld (upholds_chronicled fun _ _ _ => id)
  refine ⟨chronicled.asOf_last steady.sound, ?_, fun _ _ _ life _ spent _ _ => steady.kept life spent⟩
  intro op answer s' disk' step busy
  cases step with
  | finish asked admitted ran =>
    obtain ⟨segments', past', conduct, steady'⟩ := steady.ran admitted ran
    rw [steady.sound.bookOn, steady'.sound.bookOn, steady.sound.segmentsOn]
    exact conduct.advances steady.sound asked busy

/-! ### A kill without a coordinate -/

/-- The last spent coordinate still shows the row that was killed. -/
theorem slipped_unfixed : ¬ ∀ (store : Store UInt64) (disk : Disk UInt64),
    Reached Unfailing tagged 0 (fun _ => True) NoFailure (.up store disk) →
    PastFixed Unfailing store disk := by
  intro claim
  obtain ⟨store, disk, fresh, events, played, reached⟩ := slipped_reached
  have shown : slipped.map (fun (_, _, store, disk) =>
      ((store.asOfRows disk (store.nextSequence - 1)).toOption, (store.snapshotRows disk).toOption)) =
    some (some [[.i64 1, .key "a"]], some []) := by decide +kernel
  rw [played] at shown
  have facts := Option.some.inj shown
  simp only [Prod.mk.injEq] at facts
  have last := congrArg Except.toOption (claim store disk reached).last
  rw [facts.1, facts.2] at last
  cases last

theorem Reached.pastFixed_compactedOnce : ∃ (store : Store UInt64) (disk : Disk UInt64),
    store.snapshotRows disk = .ok [[.i64 3, .key "c"]] ∧ store.nextSequence = 4 ∧
    PastFixed Firm store disk := by
  obtain ⟨store, disk, events, played, reached⟩ := compactedOnce_reached
  have shown : compactedOnce.map
    (fun (_, store, disk) => ((store.snapshotRows disk).toOption, store.nextSequence)) =
    some (some [[.i64 3, .key "c"]], 4) := by decide +kernel
  rw [played] at shown
  have facts := Option.some.inj shown
  simp only [Prod.mk.injEq] at facts
  refine ⟨store, disk, ?_, facts.2, reached.pastFixed⟩
  cases rows : store.snapshotRows disk with
  | error e =>
    rw [rows] at facts
    cases facts.1
  | ok _ =>
    rw [rows] at facts
    exact congrArg _ (Option.some.inj facts.1)

end TallyDB
