import TallyDB.StorageLite.Acknowledged
import TallyDB.StorageLite.Chronicled

/-!
# The structural invariant

What later code relies on: spans without a gap, one birth for each row, every coordinate
below the watermark, and a manifest that names the flushed segments.
-/

namespace TallyDB

open Crash Chronicle

variable {F : Type} [F64 F] {s : Store F} {disk : Disk F} {segments past : List (Segment F)}

instance (s : Store F) : DecidablePred s.Slips
  | .supersede _ _ => instDecidableAnd
  | .append _ => instDecidableFalse
  | .tombstone _ => instDecidableFalse
  | .flush => instDecidableFalse
  | .compact => instDecidableFalse

namespace Store

/-- The clauses of the invariant, over the segments that the slots address. -/
structure Structured (store : Store F) (disk : Disk F) : Prop where
  addressed : store.segments.map (·.find disk) = (store.segmentsOn disk).map some
  remembered : store.history.map (·.find disk) = (store.pastOn disk).map some
  infos : store.segments.map (·.info) = (store.segmentsOn disk).map SegmentMeta.of
  contiguous : contiguous 0 store.segments = .ok store.bufferBase
  counted : store.bufferBase + store.buffer.len = store.rows
  tombstones : ∀ id stamp, store.killedAt id = some stamp → id < store.rows
  explicit : ∀ knowledge births, store.knowledge = some knowledge → knowledge.explicit = some births →
    births.length = store.buffer.len
  births : ∀ birth ∈ (store.segmentsOn disk ++
    store.pastOn disk).flatMap Segment.births ++ store.bufferBirths,
    birth < store.nextSequence
  kills : ∀ id stamp, store.killedAt id = some stamp → stamp < store.nextSequence
  pastKills : ∀ segment ∈ store.pastOn disk, ∀ row < segment.numRows,
    ∃ kill, segment.superseded.bind (·[row]?) = some kill ∧
      (kill = 0 ∨ segment.sequenceAt row < kill) ∧ kill < store.nextSequence
  manifest : store.persistent = true →
    disk.get .manifest =
      some (.manifest ⟨store.schema, store.orderingKey, store.generation, store.sections⟩) ∧
    store.sections.segments = (store.segmentsOn disk).map fun segment =>
      .of (.segment store.generation segment.baseRowId) segment

theorem map_eq_map {α β γ : Type} {r : α → β → Prop} {xs : List α} {ys : List β} {f : α → γ} {g : β → γ}
    (related : List.Forall₂ r xs ys) (same : ∀ x y, r x y → f x = g y) : xs.map f = ys.map g := by
  induction related with
  | nil => rfl
  | cons head _ ih => rw [List.map_cons, List.map_cons, same _ _ head, ih]

/-- A steady store whose chronicle is kept is structured. -/
theorem Chronicled.toStructured (chronicled : s.Chronicled segments past)
    (steady : s.Steady disk segments past) : s.Structured disk := by
  have sound := steady.sound
  have own := sound.segmentsOn
  have old := sound.pastOn
  have infos : s.segments.map (·.info) = segments.map SegmentMeta.of :=
    map_eq_map sound.slots fun _ _ yields => yields.info
  -- A history segment's facts are its rows, each with its kill.
  have ended {segment : Segment F} (member : segment ∈ past) {row : Nat}
    (inside : row < segment.numRows) :
      ∃ kill, segment.superseded.bind (·[row]?) = some kill ∧ segment.sequenceAt row < kill ∧
        kill < s.watermark := by
    obtain ⟨kills, known, count⟩ := (sound.pastOk segment member).kills
    have bound : row < kills.length := count ▸ inside
    have fact : ⟨segment.row row, segment.sequenceAt row, some kills[row]⟩ ∈
        past.flatMap Segment.pastFacts :=
      List.mem_flatMap.mpr ⟨segment, member, List.mem_map.mpr ⟨row, List.mem_range.mpr inside, by
          simp [known, bound]⟩⟩
    refine ⟨kills[row], by simp [known, bound], ?_, ?_⟩
    · exact chronicled.ordered _ (mem_book_past fact) _ rfl
    · exact (chronicled.dated _ (mem_book_past fact)).2 _ rfl
  refine ⟨?_, ?_, ?_, ?_, sound.axis.counted.symm, ?_,
    fun knowledge births known => sound.axis.explicit knowledge known births, ?_, ?_, ?_,
    fun stored => ?_⟩
  · rw [own]
    exact map_eq_map sound.slots fun _ _ yields => yields.find
  · rw [old, ← List.zipIdx_map_fst 0 past, List.map_map]
    exact map_eq_map sound.history fun _ _ yields => yields.find
  · rw [own, infos]
  · exact contiguous_slots infos sound.covers
  · exact fun id stamp killed => sound.killed id (by rw [isKilled, killed]; rfl)
  · intro birth member
    rw [own, old, List.flatMap_append, List.append_assoc, List.mem_append, List.mem_append] at member
    rcases member with stored | past_ | buffered
    · exact sound.below birth (List.mem_append_left _ stored)
    · obtain ⟨segment, inside, born⟩ := List.mem_flatMap.mp past_
      obtain ⟨row, bound, rfl⟩ := List.mem_map.mp born
      obtain ⟨kill, -, before, below⟩ := ended inside (List.mem_range.mp bound)
      exact before.trans below
    · exact sound.below birth (List.mem_append_right _ buffered)
  · intro id stamp killed
    have inside := sound.killed id (by rw [isKilled, killed]; rfl)
    have held : id < (s.latestFacts segments).length := sound.latest_length ▸ inside
    have death := (sound.latest_get (List.getElem?_eq_getElem held)).2
    exact (chronicled.dated _ (mem_book_latest (List.getElem_mem held))).2 stamp (death.trans killed)
  · intro segment member row inside
    rw [old] at member
    obtain ⟨kill, known, before, below⟩ := ended member inside
    exact ⟨kill, known, .inr before, below⟩
  · rw [own]
    exact ⟨(steady.filed stored).layout.manifest, (steady.filed stored).layout.records⟩

end Store

/-! ### The invariant of every run -/

/-- Any operation under any failure, except a supersession that kills and brings nothing. -/
def Firm : Rules F where
  asks store _ op := ¬ store.Slips op
  allows _ _ _ _ := True

variable {schema : Schema} {orderingKey : Nat} {options : StoreOptions → Prop}
  {allow : World F → Call F → Outcome → Prop}

/-- Every store that a run of such operations reaches is structured. -/
theorem Reached.structured (reached : Reached Firm schema orderingKey options allow (.up s disk)) :
    s.Structured disk := by
  obtain ⟨-, -, segments, past, steady, chronicled⟩ :=
    reached.upheld (upholds_chronicled fun _ _ _ => id)
  exact chronicled.toStructured steady

/-! ### A kill without a coordinate -/

/-- Two rows, one of them corrected and compacted away, and then one more killed. -/
def compactedOnce : Option (List (Event UInt64) × Store UInt64 × Disk UInt64) := do
  let (store, disk) ← openTable tagged 0 eager .empty
  rehearse (fun store _ op => decide (¬ store.Slips op)) (fun _ _ _ _ => true)
    [(.append [.i64 2, .key "a"], []), (.append [.i64 1, .key "b"], []),
      (.supersede [[.i64 3, .key "c"]] [0], []), (.compact, []),
      (.tombstone [0], [])] store disk

theorem compactedOnce_reached :
    ∃ (store : Store UInt64) (disk : Disk UInt64) (events : List (Event UInt64)),
    compactedOnce = some (events, store, disk) ∧ Reached Firm tagged 0 (fun _ => True)
      (fun _ _ _ => True) (.up store disk) := by
  obtain ⟨⟨store, disk⟩, opened⟩ : ∃ table,
      openTable tagged 0 eager (.empty : Disk UInt64) = some table :=
    Option.isSome_iff_exists.mp (by decide +kernel)
  obtain ⟨⟨more, after, disk'⟩, played⟩ : ∃ result, compactedOnce = some result :=
    Option.isSome_iff_exists.mp (by decide +kernel)
  refine ⟨after, disk', more, played, ?_⟩
  rw [compactedOnce, opened] at played
  have run : Run Firm tagged 0 (fun _ => True) (fun _ _ _ => True) [.opened] (.up store disk) :=
    .boot (.blank fun _ => rfl) (Boot.completes trivial (fun _ _ => trivial) opened)
  have life : Life Firm (.up store disk) more (.up after disk') :=
    Life.rehearsed (by simp [Firm]) (by simp [Firm]) .start played
  exact .stored (run.lives life)

theorem Reached.structured_compactedOnce : ∃ (store : Store UInt64) (disk : Disk UInt64),
    (store.pastOn disk).length = 1 ∧ store.killedAt 0 = some 3 ∧ store.nextSequence = 4 ∧
    store.Structured disk := by
  obtain ⟨store, disk, events, played, reached⟩ := compactedOnce_reached
  have shown : compactedOnce.map
    (fun (_, store, disk) => ((store.pastOn disk).length, store.killedAt 0, store.nextSequence)) =
    some (1, some 3, 4) := by decide +kernel
  rw [played] at shown
  have facts := Option.some.inj shown
  simp only [Prod.mk.injEq] at facts
  exact ⟨store, disk, facts.1, facts.2.1, facts.2.2, reached.structured⟩

/-- A row in memory, and a supersession that kills it and brings nothing. -/
def slipped : Option (Store UInt64 × List (Event UInt64) × Store UInt64 × Disk UInt64) := do
  let store ← (Store.withSegmentRows tagged 0 4).toOption
  let played ← rehearse (fun _ _ _ => true) (fun _ _ _ outcome => outcome = .ok)
    [(.append [.i64 1, .key "a"], []), (.supersede [] [0], [])] store .empty
  return (store, played)

/-- Operations of any kind, none of which a failing call answers. -/
def Unfailing : Rules F := ⟨fun _ _ _ => True, fun _ => NoFailure⟩

theorem slipped_reached :
    ∃ (store : Store UInt64) (disk : Disk UInt64) (fresh : Store UInt64) (events : List (Event UInt64)),
    slipped = some (fresh, events, store, disk) ∧ Reached Unfailing tagged 0
      (fun _ => True) NoFailure (.up store disk) := by
  obtain ⟨⟨fresh, events, store, disk⟩, played⟩ : ∃ result, slipped = some result :=
    Option.isSome_iff_exists.mp (by decide +kernel)
  refine ⟨store, disk, fresh, events, played, ?_⟩
  rw [slipped] at played
  obtain ⟨begun, made, rest⟩ := Option.bind_eq_some_iff.mp played
  obtain ⟨⟨more, after, disk'⟩, acted, same⟩ := Option.bind_eq_some_iff.mp rest
  cases same
  have begins : Store.withSegmentRows tagged 0 4 = .ok fresh := by
    cases built : (Store.withSegmentRows tagged 0 4 : Except StorageError (Store UInt64)) with
    | error e =>
      rw [built] at made
      cases made
    | ok store =>
      rw [built] at made
      exact congrArg _ (Option.some.inj made)
  exact .memory begins
    (Life.rehearsed (by simp [Unfailing]) (by simp [Unfailing, NoFailure]) .start acted)

/-- The kill lands at the watermark, which it does not use up. -/
theorem slipped_unstructured : ¬ ∀ (store : Store UInt64) (disk : Disk UInt64),
    Reached Unfailing tagged 0 (fun _ => True) NoFailure (.up store disk) → store.Structured disk := by
  intro claim
  obtain ⟨store, disk, fresh, events, played, reached⟩ := slipped_reached
  have shown : slipped.map (fun (_, _, store, _) => (store.killedAt 0, store.nextSequence)) =
    some (some 1, 1) := by decide +kernel
  rw [played] at shown
  have facts := Option.some.inj shown
  simp only [Prod.mk.injEq] at facts
  have below := (claim store disk reached).kills 0 1 facts.1
  rw [facts.2] at below
  exact absurd below (Nat.lt_irrefl 1)

end TallyDB
