import TallyDB.StorageLite.PastFixed

/-!
# Compaction changes layout, never knowledge

A compaction that succeeds keeps what every coordinate shows, sorts the live rows by
ordering key and row id, and fills every segment but the last. Another one changes nothing.
-/

namespace TallyDB

open Crash Chronicle

variable {F : Type} [F64 F]

/-! ### Sorted ledgers -/

namespace Ledger

def entries (ledger : Ledger F) : List (Row F × Nat) :=
  (ledger.zipIdx.filter (!·.1.2)).map fun entry => (entry.1.1, entry.2)

/-- A smaller ordering key, or the same one and a smaller row id. -/
def Precedes (orderingKey : Nat) (left right : Row F × Nat) : Prop :=
  orderingValue orderingKey left.1 < orderingValue orderingKey right.1 ∨
    orderingValue orderingKey left.1 = orderingValue orderingKey right.1 ∧ left.2 < right.2

/-- `after` holds the live rows of `before` alone, sorted by ordering key and row id. -/
def Sorts (orderingKey : Nat) (before after : Ledger F) : Prop :=
  ∃ order : List (Row F × Nat), order.Perm before.entries ∧ order.Pairwise (Precedes orderingKey) ∧
    after = order.map fun entry => (entry.1, false)

variable {orderingKey : Nat} {before middle after : Ledger F} {left right third : Row F × Nat}

omit [F64 F] in
theorem Precedes.asymm (first : Precedes orderingKey left right) :
    ¬ Precedes orderingKey right left := by
  rintro (below | ⟨same, below⟩)
  · rcases first with above | ⟨same, -⟩
    · exact absurd (Int64.lt_trans below above) (Int64.lt_irrefl)
    · exact absurd (same ▸ below) (Int64.lt_irrefl)
  · rcases first with above | ⟨-, above⟩
    · exact absurd (same ▸ above) (Int64.lt_irrefl)
    · omega

omit [F64 F] in
theorem pairwise_entries {order : List (Row F × Nat)} (sorted : order.Pairwise (Precedes orderingKey)) :
    Ledger.entries (order.map fun entry => (entry.1, false)) = (order.map (·.1)).zipIdx ∧
      ((order.map (·.1)).zipIdx).Pairwise (Precedes orderingKey) := by
  refine ⟨?_, List.pairwise_iff_getElem.mpr fun i j first second below => ?_⟩
  · unfold entries
    rw [List.zipIdx_map, List.zipIdx_map, List.filter_map, List.map_map]
    exact congrArg _ (List.filter_eq_self.mpr fun _ _ => rfl)
  · simp only [List.getElem_zipIdx, List.getElem_map, Nat.zero_add]
    simp only [List.length_zipIdx, List.length_map] at first second
    rcases List.pairwise_iff_getElem.mp sorted i j first second below with smaller | ⟨same, -⟩
    · exact .inl smaller
    · exact .inr ⟨same, below⟩

omit [F64 F] in
/-- Sorting again changes nothing. -/
theorem Sorts.again (first : Sorts orderingKey before middle)
    (second : Sorts orderingKey middle after) : after = middle := by
  obtain ⟨order, -, sorted, rfl⟩ := first
  obtain ⟨order', perm, sorted', rfl⟩ := second
  obtain ⟨own, listed⟩ := pairwise_entries sorted
  rw [own] at perm
  have same := perm.eq_of_pairwise (fun _ _ _ _ one other => absurd other one.asymm) sorted' listed
  rw [same]
  have rows : ((order.map (·.1)).zipIdx).map (·.1) = order.map (·.1) := List.zipIdx_map_fst 0 _
  rw [← Function.comp_def (fun row : Row F => (row, false)), ← List.map_map, rows, List.map_map]

end Ledger

section Merge

variable {s : Store F} {segments all : List (Segment F)} {merged : Store.Merged F}

/-- The merge order sorts the live rows. -/
theorem MergeOf.sorts (merges : MergeOf s all merged) (pieces : Pieces s segments all)
    (keyed : s.schema.checkOrderingKey s.orderingKey = .ok ()) :
    Ledger.Sorts s.orderingKey (s.ledger segments)
      ((orderOf s all).map fun entry => (entry.cells, false)) := by
  have ids : (entriesOf s.orderingKey all).Pairwise fun left right => left.id < right.id := by
    refine List.pairwise_map.mp
      (?_ : ((entriesOf s.orderingKey all).map MergeEntry.id).Pairwise (· < ·))
    rw [entriesOf_ids pieces.covers]
    exact List.pairwise_lt_range'
  have perm := List.perm_insertionSort MergeEntry.le
    ((entriesOf s.orderingKey all).filter fun entry => !s.isKilled entry.id)
  refine ⟨(orderOf s all).map fun entry => (entry.cells, entry.id), ?_, ?_, ?_⟩
  · have listed : (s.ledger segments).entries =
        ((entriesOf s.orderingKey all).filter fun entry => !s.isKilled entry.id).map fun entry =>
          (entry.cells, entry.id) := by
      have numbered : (s.ledger segments).zipIdx =
          (entriesOf s.orderingKey all).map fun entry =>
            ((entry.cells, s.isKilled entry.id), entry.id) := by
        rw [@Pieces.ledger F _ s segments all s.orderingKey pieces]
        refine List.ext_getElem (by simp) fun id bound _ => ?_
        have inside : id < (entriesOf s.orderingKey all).length := by simpa using bound
        simp [entriesOf_getElem pieces.covers inside]
      unfold Ledger.entries
      rw [numbered, List.filter_map, List.map_map]
      rfl
    rw [listed]
    exact perm.map _
  · rw [List.pairwise_map]
    have distinct : (orderOf s all).Pairwise fun left right => left.id ≠ right.id := by
      refine (perm.pairwise_iff fun {_ _} different => different.symm).mpr
        ((ids.filter _).imp fun below => ?_)
      exact Nat.ne_of_lt below
    have sorted : (orderOf s all).Pairwise MergeEntry.le := List.pairwise_insertionSort _ _
    refine (sorted.and distinct).imp_of_mem fun {left right} first second both => ?_
    have value {entry : MergeEntry F} (member : entry ∈ orderOf s all) :
        orderingValue s.orderingKey entry.cells = entry.value :=
      entriesOf_value keyed (merges.valid entry member)
        (List.mem_filter.mp ((List.mem_insertionSort _).mp member)).1
    unfold Ledger.Precedes
    rw [value first, value second]
    rcases both.1 with below | ⟨same, below⟩
    · exact .inl below
    · exact .inr ⟨same, Nat.lt_of_le_of_ne below both.2⟩
  · rw [List.map_map]
    rfl

end Merge

/-! ### What a compaction does -/

variable {rules : Rules F} {schema : Schema} {orderingKey : Nat} {options : StoreOptions → Prop}
variable {allow : World F → Call F → Outcome → Prop} {s s' : Store F} {disk disk' : Disk F}

/-- The same knowledge: the next coordinate, and what every coordinate shows. -/
structure Store.SameKnowledge (s : Store F) (disk : Disk F) (s' : Store F) (disk' : Disk F) : Prop where
  next : s'.nextSequence = s.nextSequence
  known : ∀ cut rows rows', s.asOfRows disk cut = .ok rows → s'.asOfRows disk' cut = .ok rows' →
    rows'.Perm rows

/-- What a compaction that succeeds makes of a store. -/
structure Compacts (rules : Rules F) (s : Store F) (disk : Disk F) (s' : Store F)
    (disk' : Disk F) : Prop where
  knowledge : s.SameKnowledge disk s' disk'
  sorted : Ledger.Sorts s.orderingKey (s.shown disk) (s'.shown disk')
  read : s'.snapshotRows disk' = .ok ((s'.shown disk').map (·.1))
  tombstones : s'.tombstones = []
  flushed : s'.buffer.rows = []
  contiguous : Store.contiguous 0 s'.segments = .ok (s'.shown disk').length
  sized : ∀ segment ∈ (s'.segmentsOn disk').dropLast, segment.numRows = s'.segmentRows
  /-- Another compaction right after changes nothing, whether or not it succeeds. -/
  again : ∀ result s'' disk'', Step rules (.up s' disk') (.finished .compact result) (.up s'' disk'') →
    s''.shown disk'' = s'.shown disk' ∧ s'.SameKnowledge disk' s'' disk''

theorem Store.sameKnowledge {segments segments' past past' : List (Segment F)}
    (sound : s.Sound disk segments past)
    (sound' : s'.Sound disk' segments' past')
    (still : (s.book segments past).Still (s'.book segments' past')) :
    s.SameKnowledge disk s' disk' where
  next := still.next
  known cut rows rows' before after := by
    rw [sound.asOfRows_book before, sound'.asOfRows_book after]
    exact (asOf_perm cut still.facts).symm

variable {segments segments' past past' : List (Segment F)} {result : Except StorageError Nat}

/-- A compaction is refused, or merges; either way it leaves the chronicle still. -/
theorem Store.Conduct.merges (conduct : s.Conduct segments past .compact result s' segments' past')
    (sound : s.Sound disk segments past)
    (sound' : s'.Sound disk' segments' past') : (s.book segments past).Still (s'.book segments' past') ∧
      ((∃ e, result = .error e) ∧ s'.latestFacts segments' = s.latestFacts segments ∨
        ∃ all merged writer, Pieces s segments all ∧ MergeOf s all merged ∧
        s' = { s.compacted merged with wal := writer } ∧
          segments' = merged.segments) := by
  cases conduct with
  | still _ _ _ _ settles answer =>
    rw [settles.book]
    exact ⟨.refl _, .inl ⟨answer.resolve_right fun idle => idle.1, settles.latest⟩⟩
  | compact all merged writer _ pieces merges logs answer =>
    have moved : (s.compacted merged).Sound disk' merged.segments (past ++ merged.history) :=
      sound'.withWal s.wal
    exact ⟨sound.book_compacted pieces merges moved,
      .inr ⟨all, merged, writer, pieces, merges, rfl, rfl⟩⟩

/-- What is shown once the next generation is adopted. -/
theorem Store.Sound.shown_merged {all : List (Segment F)} {merged : Store.Merged F}
    {writer : Option Nat}
    (sound' : ({ s.compacted merged with wal := writer } : Store F).Sound disk' merged.segments
      past') (merges : MergeOf s all merged) :
    ({ s.compacted merged with wal := writer } : Store F).shown disk' = (orderOf s all).map
      fun entry => (entry.cells, false) := by
  rw [sound'.shown]
  change ledgerOf (merged.segments.flatMap Segment.rows ++ []) [] = _
  rw [List.append_nil, merges.cells, ledgerOf]
  refine List.ext_getElem (by simp) fun id bound _ => ?_
  simp

/-- A compaction of sorted live rows keeps them as they are. -/
theorem Store.Conduct.recompacts {before : Ledger F}
    (conduct : s.Conduct segments past .compact result s' segments' past')
    (sound : s.Sound disk segments past) (sound' : s'.Sound disk' segments' past')
    (sorted : Ledger.Sorts s.orderingKey before (s.shown disk)) : s'.shown disk' = s.shown disk ∧
    s.SameKnowledge disk s' disk' := by
  obtain ⟨still, ⟨-, same⟩ | ⟨all, merged, writer, pieces, merges, rfl, rfl⟩⟩ :=
    conduct.merges sound sound'
  · refine ⟨?_, sameKnowledge sound sound' still⟩
    rw [sound'.shown_facts, sound.shown_facts, same]
  · refine ⟨?_, sameKnowledge sound sound' still⟩
    have again := merges.sorts pieces sound.keyed
    rw [← sound.shown, ← sound'.shown_merged merges] at again
    exact sorted.again again

theorem upholds_steady {asks : Store F → Disk F → Op F → Prop} :
    Upholds asks schema orderingKey (fun _ => True) (fun _ _ _ => True) where
  performs _ _ _ _ _ := trivial
  falls _ _ _ := trivial
  adopted _ := trivial
  blank := trivial
  restarts _ _ _ := trivial
  fresh _ := trivial

/-- Every compaction that succeeds, in every state that a run reaches. -/
theorem Reached.compacts {answer : Nat}
    (reached : Reached rules schema orderingKey options allow (.up s disk))
    (step : Step rules (.up s disk) (.finished .compact (.ok answer)) (.up s' disk')) :
    Compacts rules s disk s' disk' := by
  obtain ⟨-, -, segments, past, steady, -⟩ := reached.upheld upholds_steady
  cases step with
  | finish asked admitted ran =>
    obtain ⟨segments', past', conduct, steady'⟩ := steady.ran admitted ran
    have sound := steady.sound
    have sound' := steady'.sound
    obtain ⟨still, ⟨⟨e, error⟩, -⟩ | ⟨all, merged, writer, pieces, merges, rfl, rfl⟩⟩ :=
      conduct.merges sound sound'
    · cases error
    · have shown := sound'.shown_merged merges
      have sorted := merges.sorts pieces sound.keyed
      rw [← sound.shown, ← shown] at sorted
      refine ⟨Store.sameKnowledge sound sound' still, sorted, ?_, rfl, rfl, ?_, ?_, ?_⟩
      · have taken : Store.snapshot ({ s.compacted merged with wal := writer } : Store F) = .ok _ := rfl
        rw [sound'.snapshotRows taken, Store.liveRows, shown, Ledger.liveRows, List.filter_eq_self.mpr]
        simp
      · rw [shown, List.length_map, ← merges.rows]
        exact Store.contiguous_slots (Store.map_eq_map sound'.slots fun _ _ yields =>
          yields.info) merges.covers
      · rw [sound'.segmentsOn]
        exact merges.sized
      · intro result s'' disk'' again
        cases again with
        | finish asked admitted ran =>
          obtain ⟨segments'', past'', conduct'', steady''⟩ := steady'.ran admitted ran
          exact conduct''.recompacts sound' steady''.sound sorted

/-- Three rows out of order, one of them killed, compacted two by two. -/
def compactedTwice : Option
      (Store UInt64 × Disk UInt64 × List (Event UInt64) × Store UInt64 × Disk UInt64) := do
  let (store, disk) ← openTable tagged 0 ⟨some 2, none, .full⟩ .empty
  let (_, before, disk₁) ← rehearse (fun store _ op => decide (¬ store.Slips op)) (fun _ _ _ _ => true)
    [(.append [.i64 7, .key "a"], []), (.append [.i64 5, .key "b"], []),
      (.append [.i64 5, .key "c"], []),
      (.append [.i64 1, .key "d"], []), (.tombstone [2], [])] store disk
  let after ← rehearse (fun store _ op => decide (¬ store.Slips op)) (fun _ _ _ _ => true)
    [(.compact, [])] before disk₁
  return (before, disk₁, after)

def Event.succeeded : Event F → Bool
  | .finished _ (.ok _) => true
  | _ => false

theorem Reached.compacts_twice : ∃ (s s' : Store UInt64) (disk disk' : Disk UInt64),
    s'.shown disk' = [([.i64 1, .key "d"], false), ([.i64 5, .key "b"], false),
      ([.i64 7, .key "a"], false)] ∧
      Compacts Firm s disk s' disk' := by
  obtain ⟨⟨before, disk, events, after, disk'⟩, played⟩ : ∃ result, compactedTwice = some result :=
    Option.isSome_iff_exists.mp (by decide +kernel)
  have shown : compactedTwice.map
    (fun (_, _, events, store, disk) => (events.map Event.succeeded, store.shown disk)) =
    some ([true], [([.i64 1, .key "d"], false), ([.i64 5, .key "b"], false),
      ([.i64 7, .key "a"], false)]) := by decide +kernel
  rw [played] at shown
  have facts := Option.some.inj shown
  simp only [Prod.mk.injEq] at facts
  rw [compactedTwice] at played
  obtain ⟨⟨fresh, disk₀⟩, opened, played⟩ := Option.bind_eq_some_iff.mp played
  obtain ⟨⟨more, middle, disk₁⟩, lived, played⟩ := Option.bind_eq_some_iff.mp played
  obtain ⟨⟨last, final, disk₂⟩, acted, same⟩ := Option.bind_eq_some_iff.mp played
  cases same
  have run : Run Firm tagged 0 (fun _ => True) (fun _ _ _ => True) [.opened] (.up fresh disk₀) :=
    .boot (.blank fun _ => rfl) (Boot.completes trivial (fun _ _ => trivial) opened)
  have life : Life Firm (.up fresh disk₀) more (.up before disk) :=
    Life.rehearsed (by simp [Firm]) (by simp [Firm]) .start lived
  obtain ⟨result, sole, step⟩ : ∃ result, events = [.finished .compact result] ∧
      Step Firm (.up before disk) (.finished .compact result) (.up after disk') :=
    Step.rehearsed (by simp [Firm]) (by simp [Firm]) acted
  rw [sole] at facts
  cases result with
  | error e => cases facts.1
  | ok answer =>
      exact ⟨before, after, disk, disk', facts.2, Reached.compacts (.stored (run.lives life)) step⟩

end TallyDB
