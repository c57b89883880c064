import TallyDB.StorageLite.Compaction
import TallyDB.StorageLite.Sure

/-!
# When a compaction goes through

A compaction sorts the live rows and the dead ones and cuts both into segments anew. A
segment whose key column would hold nothing but nulls is refused, and with it the compaction,
whatever the segments were that the rows come from.
-/

namespace TallyDB

open Crash

variable {F : Type}

/-! ### Chunks -/

/-- Rows cut where `size` of them are together. `taken` are those of the chunk at hand. -/
def chunks {α : Type} (size : Nat) (taken : List α) : List α → List (List α)
  | [] => if taken = [] then [] else [taken]
  | row :: rest =>
      if size ≤ taken.length + 1 then (taken ++ [row]) :: chunks size [] rest else chunks size
        (taken ++ [row]) rest

variable [F64 F]

namespace Ledger

/-- The dead rows, or those that live, stably sorted by ordering value. -/
def sorted (orderingKey : Nat) (dead : Bool) (ledger : Ledger F) : List (Row F) :=
  ((ledger.filter (·.2 = dead)).map (·.1)).insertionSort fun left right =>
    orderingValue orderingKey left ≤ orderingValue orderingKey right

/-- No chunk of the sorted rows, live or dead, has a key column of nulls. -/
def Compactable (schema : Schema) (orderingKey segmentRows : Nat) (ledger : Ledger F) : Prop :=
  ∀ dead, ∀ chunk ∈ chunks segmentRows [] (ledger.sorted orderingKey dead),
    nullKey schema.fields chunk = false

instance (schema : Schema) (orderingKey segmentRows : Nat) : DecidablePred
      (Compactable (F := F) schema orderingKey segmentRows) :=
  fun ledger => inferInstanceAs
    (Decidable (∀ dead, ∀ chunk ∈ chunks segmentRows [] (ledger.sorted orderingKey dead),
    nullKey schema.fields chunk = false))

end Ledger

/-! ### Rebuilding -/

variable {schema : Schema} {orderingKey : Nat}
  {close : WriteBuffer F → List (MergeEntry F) → Nat → Except StorageError (Segment F)}

/-- A close that fails at a key column of nulls and nowhere else. -/
def Discerns (schema : Schema)
    (close : WriteBuffer F → List (MergeEntry F) → Nat → Except StorageError (Segment F)) : Prop :=
  ∀ (buffer : WriteBuffer F) taken base, buffer.schema = schema → buffer.rows ≠ [] →
    ((∃ segment, close buffer taken base = .ok segment) ↔ nullKey schema.fields buffer.rows = false)

theorem closeLive_discerns (diverged : Bool) : Discerns schema (Store.closeLive (F := F) diverged) := by
  rintro buffer taken base rfl filled
  rw [← @WriteBuffer.freezeAt_ok_iff F _ buffer base filled, Store.closeLive]
  cases buffer.freezeAt base <;> simp [bind, Except.bind, pure, Except.pure]

theorem closeHistory_discerns (stamps : Tombstones) : Discerns schema
      (Store.closeHistory (F := F) stamps) := by
  rintro buffer taken base rfl filled
  rw [← @WriteBuffer.freezeAt_ok_iff F _ buffer 0 filled, Store.closeHistory]
  cases buffer.freezeAt 0 <;> simp [bind, Except.bind, pure, Except.pure]

theorem Store.rebuild_ok_iff (discerns : Discerns schema close) {segmentRows base : Nat}
    {order taken : List (MergeEntry F)}
    {buffer : WriteBuffer F} (same : buffer.schema = schema)
    (rows : buffer.rows = taken.map MergeEntry.cells)
    (valid : ∀ entry ∈ order, schema.validate entry.cells = .ok ()) :
    (∃ out, rebuild segmentRows close order buffer taken base = .ok out) ↔
      ∀ chunk ∈ chunks segmentRows (taken.map MergeEntry.cells) (order.map MergeEntry.cells),
      nullKey schema.fields chunk = false := by
  induction order generalizing buffer taken base with
  | nil =>
    simp only [List.map_nil, chunks, ← rows]
    rw [rebuild]
    by_cases empty : buffer.rows = []
    · rw [if_pos (isEmpty_iff.mpr empty), if_pos empty]
      simp
    · rw [if_neg (fun none => empty (isEmpty_iff.mp none)), if_neg empty]
      have closes := discerns buffer taken base same empty
      simp only [List.mem_singleton, forall_eq, ← closes]
      cases close buffer taken base <;> simp [bind, Except.bind, pure, Except.pure]
  | cons entry rest ih =>
    have checked : buffer.validate entry.cells = .ok () := by
      unfold WriteBuffer.validate
      rw [same]
      exact valid entry List.mem_cons_self
    have grown : (buffer.push entry.cells checked).rows = (taken ++ [entry]).map MergeEntry.cells := by
      rw [List.map_append, ← rows]
      rfl
    have later := fun other member => valid other (List.mem_cons_of_mem entry member)
    have closes := discerns (buffer.push entry.cells checked) (taken ++ [entry]) base same
      (by simp [grown])
    have after (base : Nat) :
      (∃ out, rebuild segmentRows close rest (.empty buffer.schema buffer.orderingKey) []
      base = .ok out) ↔
        ∀ chunk ∈ chunks segmentRows [] (rest.map MergeEntry.cells),
          nullKey schema.fields chunk = false := ih same rfl later
    have count : (taken.map MergeEntry.cells).length + 1 = (buffer.push entry.cells checked).len := by
      rw [WriteBuffer.len, grown]
      simp
    have whole : taken.map MergeEntry.cells ++ [entry.cells] =
        (buffer.push entry.cells checked).rows := by
      rw [grown]
      simp
    rw [rebuild, append_eq_push checked, List.map_cons, chunks, count, whole]
    simp only [bind, Except.bind]
    split
    · rw [List.forall_mem_cons, ← closes, ← after (base + (buffer.push entry.cells checked).len)]
      cases close (buffer.push entry.cells checked) (taken ++ [entry]) base with
      | error e => simp
      | ok segment =>
        cases rebuild segmentRows close rest (.empty buffer.schema buffer.orderingKey) []
          (base + (buffer.push entry.cells checked).len) <;>
          simp [pure, Except.pure]
    · rw [grown]
      exact ih same grown later
/-! ### The merge -/

variable {s : Store F} {segments all past : List (Segment F)}

/-- The rows of a merge in its order, by whether they are dead. -/
theorem Pieces.sorted (pieces : Pieces s segments all)
    (keyed : s.schema.checkOrderingKey s.orderingKey = .ok ()) (dead : Bool) :
    (((entriesOf s.orderingKey all).filter fun entry => s.isKilled entry.id = dead).insertionSort
      MergeEntry.le).map MergeEntry.cells =
      (s.ledger segments).sorted s.orderingKey dead := by
  rw [sorted_cells pieces.covers keyed _ fun entry member _ => pieces.valid member, Ledger.sorted,
    @Pieces.ledger F _ s segments all s.orderingKey pieces, List.filter_map, List.map_map]
  rfl

/-- A merge goes through exactly where every chunk of the sorted rows keeps a value in each of its
key columns. -/
theorem Store.merge_ok_iff (pieces : Pieces s segments all)
    (keyed : s.schema.checkOrderingKey s.orderingKey = .ok ()) :
    (∃ merged, s.merge (all.map s.viewOf) = .ok merged) ↔
    (s.ledger segments).Compactable s.schema s.orderingKey s.segmentRows := by
  have live : (orderOf s all).map MergeEntry.cells = (s.ledger segments).sorted
      s.orderingKey false := by
    rw [← pieces.sorted keyed, orderOf]
    simp
  have dead : (deadOf s all).map MergeEntry.cells = (s.ledger segments).sorted s.orderingKey true := by
    rw [← pieces.sorted keyed, deadOf]
    simp
  have liveValid (entry : MergeEntry F) (member : entry ∈ orderOf s all) :
      s.schema.validate entry.cells = .ok () :=
    pieces.valid (List.mem_filter.mp ((List.mem_insertionSort _).mp member)).1
  have deadValid (entry : MergeEntry F) (member : entry ∈ deadOf s all) :
      s.schema.validate entry.cells = .ok () :=
    pieces.valid (List.mem_filter.mp ((List.mem_insertionSort _).mp member)).1
  have liveRebuilt :
    (∃ out, rebuild s.segmentRows
    (closeLive (diverging (s.knowledge.map (·.next)) (orderOf s all) (deadOf s all)))
      (orderOf s all) (.empty s.schema s.orderingKey) [] 0 = .ok out) ↔
        ∀ chunk ∈ chunks s.segmentRows [] ((s.ledger segments).sorted s.orderingKey false),
          nullKey s.schema.fields chunk = false := by
    rw [← live]
    exact rebuild_ok_iff (closeLive_discerns _) rfl rfl liveValid
  have deadRebuilt :
    (∃ out, rebuild s.segmentRows (closeHistory s.tombstones) (deadOf s all)
    (.empty s.schema s.orderingKey) [] 0 = .ok out) ↔
        ∀ chunk ∈ chunks s.segmentRows [] ((s.ledger segments).sorted s.orderingKey true),
          nullKey s.schema.fields chunk = false := by
    rw [← dead]
    exact rebuild_ok_iff (closeHistory_discerns _) rfl rfl deadValid
  rw [merge, mergeOrder_views, deadOrder_views, Ledger.Compactable, Bool.forall_bool,
    ← liveRebuilt, ← deadRebuilt]
  simp only [bind, Except.bind]
  cases rebuild s.segmentRows
    (closeLive (diverging (s.knowledge.map (·.next)) (orderOf s all) (deadOf s all))) (orderOf s all)
      (.empty s.schema s.orderingKey) [] 0 with
  | error e => simp
  | ok out =>
    cases rebuild s.segmentRows (closeHistory s.tombstones) (deadOf s all)
      (.empty s.schema s.orderingKey) [] 0 <;> simp [pure, Except.pure]

/-! ### The compaction -/

variable {allow : World F → Call F → Outcome → Prop} {w : World F} {disk disk' : Disk F}
  {handles : List (SegmentHandle F)}

theorem Store.wp_compactSure (sure : Sure allow) (steady : s.Steady w.disk segments past)
    (taken : s.snapshot = .ok handles) :
    Fallible.wp backend allow (fun _ => True) compact
      (fun result _ _ => (∃ done, result = .ok done) ↔
        (s.ledger segments).Compactable s.schema s.orderingKey s.segmentRows) s w := by
  obtain ⟨all, pieces, shows⟩ := steady.sound.snapshot taken
  have goes := merge_ok_iff pieces steady.sound.keyed
  -- Nothing fails once the merge has gone through.
  have settle (possible : (s.ledger segments).Compactable s.schema s.orderingKey s.segmentRows)
    (own : Store F) (past' : List (Segment F))
      (w : World F) : Fallible.wp backend allow (fun _ => True) (do
        resetWal
        Fallible.when s.persistent sweep)
      (fun result _ _ => (∃ done, result = .ok done) ↔
        (s.ledger segments).Compactable s.schema s.orderingKey s.segmentRows) own w := by
    refine Fallible.wp_bind.mpr (Fallible.wp_post (wp_resetWalSure sure) fun result own w ended => ?_)
    obtain ⟨rfl, -⟩ := ended
    simp only [Fallible.wp_when]
    refine ⟨fun _ => @wp_sweep F _ _ _ _ past' _ (fun _ _ _ => trivial) fun _ _ _ => ?_, fun _ => ?_⟩
    · simp [possible]
    · simp [possible]
  simp only [compact, Fallible.wp_bind, wp_refuseReadOnly steady.sound.writable, Fallible.wp_read,
    Fallible.wp_ofExcept, taken]
  refine wp_views rfl shows ?_ (fun _ _ => trivial) (fun _ _ fails => (sure.scan fails).elim)
    fun w₁ quiet => ?_
  · intro view member
    obtain ⟨segment, inside, rfl⟩ := List.mem_map.mp member
    exact (pieces.ok segment inside).schema
  · have steady₁ : s.Steady w₁.disk segments past := quiet.2 ▸ steady
    cases made : s.merge (all.map s.viewOf) with
    | error e =>
      simp only [made] at goes ⊢
      simpa using goes
    | ok merged =>
      have possible := goes.mp ⟨merged, made⟩
      have merges := merge_spec pieces steady.sound.keyed steady.sound.threshold made
      simp only [made, Fallible.wp_when, Fallible.wp_update]
      refine ⟨fun stored => ?_, fun memory => ?_⟩
      · refine wp_publishMerged steady₁.sound merges (fun _ _ _ => trivial)
          (fun _ _ _ _ fails => (fails.elim sure.write sure.scan).elim) ?_
        intro w₂ published
        simpa only [Fallible.wp_bind, Fallible.wp_when] using settle possible _ past w₂
      · simpa only [Fallible.wp_bind, Fallible.wp_when] using settle possible _ past w₁

variable {rules : Rules F} {orderingKey : Nat} {options : StoreOptions → Prop} {s' : Store F}
  {result : Except StorageError Nat}

/-- Where no call of it fails, a compaction of a store that can be read goes through exactly if it
is possible for its rows. -/
theorem Reached.compact_ok_iff
    (reached : Reached rules schema orderingKey options allow (.up s disk))
    (sure : Sure (rules.allows .compact))
    (taken : s.snapshot = .ok handles)
    (step : Step rules (.up s disk) (.finished .compact result) (.up s' disk')) :
    (∃ answer, result = .ok answer) ↔
    (s.shown disk).Compactable s.schema s.orderingKey s.segmentRows := by
  obtain ⟨-, -, segments, past, steady, -⟩ := reached.upheld upholds_steady
  rw [steady.sound.shown]
  cases step with
  | finish asked admitted ran =>
    have rule : Fallible.wp backend (rules.allows .compact) (fun _ => True) (Op.perform .compact)
      (fun result _ _ => (∃ answer, result = .ok answer) ↔
        (s.ledger segments).Compactable s.schema s.orderingKey s.segmentRows) s ⟨disk, []⟩ := by
      refine Fallible.wp_bind.mpr
        (Fallible.wp_post (@Store.wp_compactSure F _ s segments past _ ⟨disk, []⟩ handles sure
        steady taken) ?_)
      intro result own w goes
      cases result with
      | error e => simpa using goes
      | ok _ => simpa using goes
    have ends := Program.wp_sound rule admitted
    rwa [ran] at ends

/-! ### Nulls that come together -/

/-- Rows appended to a table that flushes two at a time, and then a compaction. -/
def regrouped (rows : List (Row UInt64)) :
    Option (List (Event UInt64) × Store UInt64 × Disk UInt64 × List (Event UInt64) × Store UInt64 ×
      Disk UInt64) := do
  let (store, disk) ← openTable tagged 0 ⟨some 2, none, .full⟩ .empty
  let (events, before, disk₁) ← rehearse (fun _ _ _ => true) (fun _ _ _ outcome => outcome = .ok)
    (rows.map fun row => (.append row, [])) store disk
  let after ← rehearse (fun _ _ _ => true) (fun _ _ _ outcome => outcome = .ok)
    [(.compact, [])] before disk₁
  return (events, before, disk₁, after)

theorem regrouped_runs {rows : List (Row UInt64)} {events last : List (Event UInt64)}
    {before after : Store UInt64} {disk disk' : Disk UInt64}
    (played : regrouped rows = some (events, before, disk, last, after, disk')) :
    Run Unfailing tagged 0 (fun _ => True) NoFailure (.opened :: events) (.up before disk) ∧ ∃ result,
      last = [.finished .compact result] ∧ Step Unfailing (.up before disk)
        (.finished .compact result) (.up after disk') := by
  obtain ⟨⟨fresh, disk₀⟩, opened, played⟩ := Option.bind_eq_some_iff.mp played
  obtain ⟨⟨more, middle, disk₁⟩, lived, played⟩ := Option.bind_eq_some_iff.mp played
  obtain ⟨⟨sole, final, disk₂⟩, acted, same⟩ := Option.bind_eq_some_iff.mp played
  cases same
  have run : Run Unfailing tagged 0 (fun _ => True) NoFailure [.opened] (.up fresh disk₀) :=
    .boot (.blank fun _ => rfl) (Boot.completes trivial (fun _ _ => .inl rfl) opened)
  have life : Life Unfailing (.up fresh disk₀) events (.up before disk) :=
    Life.rehearsed (by simp [Unfailing]) (by simp [Unfailing, NoFailure]) .start lived
  exact ⟨run.lives life, Step.rehearsed (by simp [Unfailing]) (by simp [Unfailing, NoFailure]) acted⟩

/-- What a test of `regrouped` sees: the rows held, whether they can be read, and which operations
succeeded. -/
def regroupedSeen (rows : List (Row UInt64)) : Option (Nat × Bool × List Bool × List Bool) :=
  (regrouped rows).map fun (events, before, disk, last, _) =>
    ((before.shown disk).length, before.snapshot.toOption.isSome, events.map Event.succeeded,
      last.map Event.succeeded)

theorem regrouped_seen {rows : List (Row UInt64)} {count : Nat} {did : List Bool} {done : Bool}
    (seen : regroupedSeen rows = some (count, true, did, [done])) :
    ∃ (events : List (Event UInt64)) (before after : Store UInt64)
      (disk disk' : Disk UInt64) (handles : List (SegmentHandle UInt64))
      (result : Except StorageError Nat),
      Run Unfailing tagged 0 (fun _ => True) NoFailure (.opened :: events) (.up before disk) ∧
      events.map Event.succeeded = did ∧
        (before.shown disk).length = count ∧ before.snapshot = .ok handles ∧
        Step Unfailing (.up before disk) (.finished .compact result) (.up after disk') ∧
        (Event.finished Op.compact result : Event UInt64).succeeded = done := by
  obtain ⟨⟨events, before, disk, last, after, disk'⟩, played, same⟩ := Option.map_eq_some_iff.mp seen
  simp only [Prod.mk.injEq] at same
  obtain ⟨held, readable, succeeded, ended⟩ := same
  obtain ⟨run, result, rfl, step⟩ := regrouped_runs played
  cases taken : before.snapshot with
  | error e =>
    rw [taken] at readable
    cases readable
  | ok handles =>
      exact ⟨events, before, after, disk, disk', handles, result, run, succeeded, held, taken,
        step, by simpa using ended⟩

/-- Nulls that stay apart are no obstacle. -/
theorem Reached.compact_apart : ∃ (s : Store UInt64) (disk : Disk UInt64), (s.shown disk).length = 4 ∧
    (s.shown disk).Compactable s.schema s.orderingKey s.segmentRows := by
  obtain ⟨events, before, after, disk, disk', handles, result, run, -, held, taken, step, done⟩ :=
    @regrouped_seen [[.i64 3, .null], [.i64 1, .key "a"], [.i64 2, .null], [.i64 4, .key "b"]] 4
      [true, true, true, true] true (by decide +kernel)
  cases result with
  | error e => cases done
  | ok answer =>
    exact ⟨before, disk, held,
      (Reached.compact_ok_iff (.stored run) sure_noFailure taken step).mp ⟨answer, rfl⟩⟩

/-- Two nulls that lie in segments of their own with other values next to them, and one compaction
that would put them together. -/
theorem compact_refused :
    ∃ (events : List (Event UInt64)) (before after : Store UInt64) (disk disk' : Disk UInt64)
    (handles : List (SegmentHandle UInt64)) (e : StorageError),
    Run Unfailing tagged 0 (fun _ => True) NoFailure (.opened :: events) (.up before disk) ∧
    events.map Event.succeeded = [true, true, true, true] ∧
      before.snapshot = .ok handles ∧ Step Unfailing (.up before disk)
        (.finished .compact (.error e)) (.up after disk') := by
  obtain ⟨events, before, after, disk, disk', handles, result, run, did, -, taken, step, done⟩ :=
    @regrouped_seen [[.i64 1, .null], [.i64 3, .key "a"], [.i64 2, .null], [.i64 4, .key "b"]] 4
      [true, true, true, true] false (by decide +kernel)
  cases result with
  | error e => exact ⟨events, before, after, disk, disk', handles, e, run, did, taken, step⟩
  | ok answer => cases done

end TallyDB
