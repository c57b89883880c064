import TallyDB.StorageLite.Compaction

/-!
# What a refused mutation leaves

A mutation that fails before its first row is in the buffer leaves every row and every
coordinate as they were, and one that fails later does not. A compaction that fails once it is
committed leaves them in its own order.
-/

namespace TallyDB

open Crash Chronicle

variable {F : Type} [F64 F] {s s' : Store F} {disk disk' : Disk F} {w : World F}
  {segments segments' past past' : List (Segment F)}

/-! ### Failing early -/

/-- Whether a computation ends in an error under a plan of outcomes. -/
def FailsUnder {α : Type} (x : StoreM F α) (s : Store F) (disk : Disk F) (plan : List Outcome) : Prop :=
  match Program.run backend (x s) ⟨disk, []⟩ plan with
  | .returned (.error _, _) _ _ => True
  | _ => False

instance {α : Type} (x : StoreM F α) (s : Store F) (disk : Disk F) (plan : List Outcome) : Decidable
      (FailsUnder x s disk plan) := by
  unfold FailsUnder
  split <;> infer_instance

/-- The order in which a compaction lists facts: by ordering key, those of one key as they lie. -/
def sortFacts (orderingKey : Nat) (facts : List (Fact (Row F))) : List (Fact (Row F)) :=
  facts.insertionSort fun left right => orderingValue orderingKey left.value ≤
    orderingValue orderingKey right.value

/-- The rows of a store lie as a compaction would list them: those that live by ordering key and, at
every coordinate, ahead of those of history, which lie ahead of those killed since. -/
structure Store.Orderly (s : Store F) (disk : Disk F) : Prop where
  live : (s.liveRows disk).Pairwise fun left right => orderingValue s.orderingKey left ≤
    orderingValue s.orderingKey right
  known : ∀ cut, s.knownAt disk cut = asOf cut ((s.factsOn disk).filter (·.alive)) ++ asOf cut
    ((s.pastOn disk).flatMap Segment.pastFacts) ++
    asOf cut (sortFacts s.orderingKey ((s.factsOn disk).filter (!·.alive)))

/-- What lets a failure go unseen. An append fails before its row is in the buffer, a supersession
before its first row is or, if it has none, before its delete log is written, and a compaction
before its commit, unless it would move no row. -/
def Op.FailsEarly (s : Store F) (disk : Disk F) (plan : List Outcome) : Op F → Prop
  | .append row => FailsUnder (Store.prepareAppend row) s disk plan
  | .supersede rows victims => FailsUnder (Store.prepareSupersede rows victims) s disk plan
  | .compact => FailsUnder Store.prepareCompact s disk plan ∨ s.Orderly disk
  | .tombstone _ => True
  | .flush => True

/-- The rows of a store, live and known, and its next coordinate are those of another, in the same
order. -/
structure Store.Unseen (s : Store F) (disk : Disk F) (s' : Store F) (disk' : Disk F) : Prop where
  live : s'.liveRows disk' = s.liveRows disk
  next : s'.nextSequence = s.nextSequence
  known : ∀ cut, s'.knownAt disk' cut = s.knownAt disk cut

namespace Store

theorem Sound.unseen (sound : s.Sound disk segments past) (sound' : s'.Sound disk' segments' past')
    (same : s'.book segments' past' = s.book segments past) : s.Unseen disk s' disk' where
  live := by rw [sound.liveRows_living, sound'.liveRows_living, sound.bookOn, sound'.bookOn, same]
  next := congrArg Book.next same
  known cut := by rw [knownAt, knownAt, sound.bookOn, sound'.bookOn, same]

theorem seen_of_watermark (mark : s'.watermark = s.watermark + 1) : ¬ s.Unseen disk s' disk' :=
  fun unseen => by
  have same : s'.watermark = s.watermark := unseen.next
  omega

theorem Sound.seen_of_kill (sound : s.Sound disk segments past)
    (sound' : s'.Sound disk' segments' past') {ids : List Nat}
    (filled : ids ≠ []) (inside : ∀ id ∈ ids, id < s.rows)
    (turns : (s.book segments past).Turns (named ids (s.latestFacts segments)) []
      (s'.book segments' past')) :
    ¬ s.Unseen disk s' disk' := by
  intro unseen
  obtain ⟨kept, old, new⟩ := turns.living
  have live := unseen.live
  rw [sound.liveRows_living, sound'.liveRows_living, sound.bookOn, sound'.bookOn] at live
  have lengths := (old.symm.trans (live ▸ new)).length_eq
  obtain ⟨id, member⟩ := List.exists_mem_of_ne_nil ids filled
  have bound : id < (s.latestFacts segments).length := sound.latest_length ▸ inside id member
  have dead : (s.latestFacts segments)[id] ∈ named ids (s.latestFacts segments) := by
    refine List.mem_map.mpr ⟨((s.latestFacts segments)[id], id), List.mem_filter.mpr ⟨?_, by
        simpa using member⟩, rfl⟩
    exact List.mem_zipIdx_iff_getElem?.mpr (List.getElem?_eq_getElem bound)
  have some := List.length_pos_of_mem dead
  simp only [List.length_append, List.length_map, List.length_nil] at lengths
  omega

omit [F64 F] in
theorem failsUnder {α : Type} {x : StoreM F α} {plan rest : List Outcome} {e : StorageError}
    (ran : Program.run backend (x s) ⟨disk, []⟩ plan = .returned (.error e, s') w rest) :
    FailsUnder x s disk plan := by
  rw [FailsUnder, ran]
  trivial

omit [F64 F] in
theorem not_failsUnder {α : Type} {x : StoreM F α} {plan rest : List Outcome} {value : α}
    (ran : Program.run backend (x s) ⟨disk, []⟩ plan = .returned (.ok value, s') w rest) :
    ¬ FailsUnder x s disk plan := by
  rw [FailsUnder, ran]
  exact id

/-! ### One operation -/

section Operations

variable {plan rest : List Outcome} {e : StorageError}

/-- An append that fails is unseen if its row never reached the buffer. -/
theorem Steady.append_unseen_iff {row : Row F} (steady : s.Steady disk segments past)
    (ran : Program.run backend (append row s) ⟨disk, []⟩ plan = .returned (.error e, s') w rest) :
    s.Unseen disk s' w.disk ↔ FailsUnder (prepareAppend row) s disk plan := by
  have prepares : Fallible.wp backend (fun _ _ _ => True) (fun _ => True) (prepareAppend row)
      (fun result middle w₁ =>
      middle = s ∧ s.Steady w₁.disk segments past ∧ ∀ id, result = .ok id →
      s.buffer.validate row = .ok ()) s ⟨disk, []⟩ :=
    wp_prepareAppend (w := ⟨disk, []⟩) steady (fun _ _ => trivial)
      (fun e w₁ steady₁ => ⟨rfl, steady₁, nofun⟩)
      fun w₁ valid steady₁ => ⟨rfl, steady₁, fun _ _ => valid⟩
  rw [append_eq] at ran
  rcases Fallible.run_bind ran with ⟨e', -, first⟩ | ⟨id, middle, w₁, left, first, second⟩
  · obtain ⟨rfl, steady', -⟩ := Fallible.wp_ran prepares first
    exact iff_of_true (steady.sound.unseen steady'.sound rfl) (failsUnder first)
  · obtain ⟨rfl, steady₁, valid⟩ := Fallible.wp_ran prepares first
    have valid := valid id rfl
    have finishes : Fallible.wp backend (fun _ _ _ => True) (fun _ => True)
        (finishAppend row id) (fun _ s' _ =>
        s'.watermark = middle.watermark + 1) middle w₁ :=
      wp_finishAppend steady₁ valid (fun _ _ _ _ _ => trivial) fun _ s' _ _ settles _ _ =>
        (Flushes.watermark settles).trans (taken_watermark valid)
    exact iff_of_false (seen_of_watermark (Fallible.wp_ran finishes second)) (not_failsUnder first)

/-- Where a supersession stands once it is prepared. -/
inductive Prepared (s : Store F) (segments past : List (Segment F)) (rows : List (Row F))
    (victims : List Nat) (disk : Disk F) :
    Except StorageError (Option (List Nat × Nat)) → Store F → Prop where
  | refused (e : StorageError) (first : Store F) (segments₁ : List (Segment F))
      (settles : s.Settles segments first segments₁)
      (steady : first.Steady disk segments₁ past) : Prepared s segments past rows victims disk
        (.error e) first
  | idle (bare : rows = []) : Prepared s segments past rows victims disk (.ok none) s
  | ready (first : Store F) (segments₁ : List (Segment F)) (filled : rows ≠ [])
      (valid : ∀ row ∈ rows, s.schema.validate row = .ok ())
      (settles : s.Settles segments first segments₁) (mortal : first.Mortal (s.newlyDead victims))
      (steady : first.Steady disk segments₁ past) :
      Prepared s segments past rows victims disk (.ok (some (s.newlyDead victims, s.watermark))) first
  | killed (first : Store F) (segments₁ : List (Segment F)) (bare : rows = [])
      (newly : s.newlyDead victims ≠ [])
      (settles : s.Settles segments first segments₁) (mortal : first.Mortal (s.newlyDead victims))
      (steady : (first.killing (s.newlyDead victims) s.watermark).Steady disk segments₁ past) :
      Prepared s segments past rows victims disk (.ok (some (s.newlyDead victims, s.watermark)))
          { first with deleteLogSequence :=
        if first.persistent then first.deleteLogSequence + 1 else first.deleteLogSequence }

theorem Steady.prepared {rows : List (Row F)} {victims : List Nat}
    (steady : s.Steady disk segments past)
    {result : Except StorageError (Option (List Nat × Nat))}
    (ran : Program.run backend (prepareSupersede rows victims s) ⟨disk, []⟩ plan =
      .returned (result, s') w rest) :
    Prepared s segments past rows victims w.disk result s' := by
  have prepares : Fallible.wp backend (fun _ _ _ => True) (fun _ => True)
    (prepareSupersede rows victims)
      (fun result middle w₁ => Prepared s segments past rows victims w₁.disk result middle)
        s ⟨disk, []⟩ :=
    wp_prepareSupersede (w := ⟨disk, []⟩) steady (fun _ _ _ _ _ => trivial)
      (fun e first w₁ segments₁ settles steady₁ => .refused e first segments₁ settles steady₁)
        (fun idle => .idle idle.1)
      (fun first w₁ segments₁ filled valid settles mortal steady₁ =>
        .ready first segments₁ filled valid settles mortal steady₁)
      fun first w₁ segments₁ bare newly settles mortal steady₁ =>
        .killed first segments₁ bare newly settles mortal steady₁
  exact Fallible.wp_ran prepares ran

/-- A supersession that fails past its first row has used up its coordinate. -/
theorem wp_finishSpends {allow : World F → Call F → Outcome → Prop} {w₁ : World F}
    {rows : List (Row F)} {ids : List Nat} {sequence : Nat} (steady : s.Steady w₁.disk segments past)
    (mortal : s.Mortal ids) (valid : ∀ row ∈ rows, s.schema.validate row = .ok ())
    (filled : rows ≠ []) (own : sequence = s.watermark) :
    Fallible.wp backend allow (fun _ => True) (finishSupersede rows (some (ids, sequence)))
      (fun _ s' _ => s'.watermark = s.watermark + 1) s w₁ := by
  obtain ⟨row, rest, rfl⟩ := List.exists_cons_of_ne_nil filled
  have spent {done : List (Row F)} {taken : Store F} (some : done ≠ [])
    (takes : s.Replays [.supersession sequence done] taken) :
      taken.watermark = s.watermark + 1 := by
    rw [takes.watermark, own]
    simp [replayBirths, Replayed.births, some]
  refine wp_finishRows steady mortal valid (fun _ _ _ _ _ _ _ _ _ _ => trivial)
    (fun _ _ _ _ _ _ _ _ _ _ _ => trivial) ?_ ?_
  · intro e done left taken s' w' segments' _ takes some after _
    exact (Flushes.watermark after).trans (spent some takes)
  · intro result taken committed s' w' segments₂ segments' takes after _ finally_ _ _
    have kept : (committed.killing ids sequence).watermark = committed.watermark := rfl
    rw [Flushes.watermark finally_, kept, Flushes.watermark after]
    exact spent (by simp) takes

/-- A supersession that fails is unseen if no row of it reached the buffer and no kill the disk. -/
theorem Steady.supersede_unseen_iff {rows : List (Row F)} {victims : List Nat}
    (steady : s.Steady disk segments past)
    (ran : Program.run backend (supersede rows victims s) ⟨disk, []⟩ plan =
      .returned (.error e, s') w rest) :
    s.Unseen disk s' w.disk ↔ FailsUnder (prepareSupersede rows victims) s disk plan := by
  rw [supersede_eq] at ran
  rcases Fallible.run_bind ran with ⟨e', -, head⟩ | ⟨found, middle, w₁, left, head, tail⟩
  · refine iff_of_true ?_ (failsUnder head)
    cases steady.prepared head with
    | refused _ _ segments₁ settles steady₁ =>
      exact steady.sound.unseen steady₁.sound settles.book
  · refine iff_of_false ?_ (not_failsUnder head)
    cases steady.prepared head with
    | idle => cases tail
    | ready _ segments₁ filled valid settles mortal steady₁ =>
      have mark := Flushes.watermark settles
      have valid' := settles.kin.schema ▸ valid
      have spends := Fallible.wp_ran (wp_finishSpends steady₁ mortal valid' filled mark.symm) tail
      exact seen_of_watermark (spends.trans (by rw [mark]))
    | killed committed segments₁ bare newly settles mortal steady₁ =>
      subst bare
      have ends : Fallible.wp backend (fun _ _ _ => True) (fun _ => True)
          (finishSupersede [] (some (s.newlyDead victims, s.watermark))) (fun _ s' w' => ∃ segments',
            (committed.killing (s.newlyDead victims) s.watermark).Settles segments₁ s' segments' ∧
            s'.Steady w'.disk segments' past)
          { committed with deleteLogSequence :=
            if committed.persistent then committed.deleteLogSequence +
              1 else committed.deleteLogSequence } w₁ := by
        have buried := @wp_bury F _ (fun _ _ _ => True) (fun _ => True) _ _ _ _
          (fun _ s' w' => ∃ segments',
          (committed.killing (s.newlyDead victims) s.watermark).Settles segments₁ s' segments' ∧
          s'.Steady w'.disk segments' past) _ _
          steady₁ (fun _ _ _ _ _ => trivial) fun _ s' w' segments' after steady' _ =>
            ⟨segments', after, steady'⟩
        simpa only [finishSupersede, pure_bind] using buried
      obtain ⟨segments', finally_, steady'⟩ := Fallible.wp_ran ends tail
      have inside := settles.inside mortal
      have axis := (settles.sound steady.sound).axis
      obtain ⟨turns, -⟩ :=
        steady.sound.turns_superseded (fun id member => (mem_newlyDead.mp member).2) inside settles
        (.bare axis) .kept
        finally_
      exact steady.sound.seen_of_kill steady'.sound newly inside turns

/-- A tombstone or a flush that fails is unseen. -/
theorem Conduct.refused {op : Op F} (conduct : s.Conduct segments past op (.error e) s' segments' past')
    (other : (∀ row, op ≠ .append row) ∧ (∀ rows victims, op ≠ .supersede rows victims) ∧
      op ≠ .compact) :
    s'.book segments' past' = s.book segments past := by
  cases conduct with
  | still _ _ _ _ settles _ => exact settles.book
  | append row => exact absurd rfl (other.1 row)
  | partial_ done rest victims => exact absurd rfl (other.2.1 _ victims)
  | supersede rows victims => exact absurd rfl (other.2.1 rows victims)
  | compact => exact absurd rfl other.2.2

/-! ### Compaction -/

/-- The facts that a merge picks are those of the store, sorted. -/
theorem Sound.facts_merged {all : List (Segment F)} (sound : s.Sound disk segments past)
    (pieces : Pieces s segments all) (alive : Bool) :
    (((entriesOf s.orderingKey all).filter fun entry => s.isKilled entry.id = !alive).insertionSort
      MergeEntry.le).map s.entryFact =
      sortFacts s.orderingKey ((s.latestFacts segments).filter (·.alive = alive)) := by
  rw [sorted_entries pieces.covers sound.keyed _ fun entry member _ => pieces.valid member,
    sound.latest_pieces pieces, List.filter_map]
  have picks : ((fun fact : Fact (Row F) => decide (fact.alive = alive)) ∘ s.entryFact) =
      fun entry => decide (s.isKilled entry.id = !alive) := by
    funext entry
    have lives : (s.entryFact entry).alive = !s.isKilled entry.id := by
      simp [Fact.alive, entryFact, isKilled]
    rw [Function.comp_apply, lives]
    cases s.isKilled entry.id <;> cases alive <;> rfl
  rw [picks]
  exact List.map_insertionSort _ _ s.entryFact _ fun _ _ _ _ => Iff.rfl

theorem Sound.known_compacted {all : List (Segment F)} {merged : Merged F} {writer : Option Nat}
    (sound : s.Sound disk segments past)
    (pieces : Pieces s segments all) (merges : MergeOf s all merged)
    (sound' : ({ s.compacted merged with wal := writer } : Store F).Sound disk' merged.segments
      (past ++ merged.history)) (cut : Nat) :
    ({ s.compacted merged with wal := writer } : Store F).knownAt disk' cut =
      asOf cut (sortFacts s.orderingKey ((s.factsOn disk).filter (·.alive))) ++ asOf cut
        ((s.pastOn disk).flatMap Segment.pastFacts) ++
        asOf cut (sortFacts s.orderingKey ((s.factsOn disk).filter (!·.alive))) := by
  have moved : (s.compacted merged).Sound disk' merged.segments (past ++ merged.history) :=
    sound'.withWal s.wal
  have live := sound.facts_merged pieces true
  have dead := sound.facts_merged pieces false
  simp only [Bool.not_true, Bool.not_false, Bool.decide_eq_true, Bool.decide_eq_false] at live dead
  rw [knownAt, sound'.bookOn]
  change asOf cut ((s.compacted merged).latestFacts merged.segments ++
    (past ++ merged.history).flatMap Segment.pastFacts) = _
  rw [moved.latest_compacted merges, List.flatMap_append, past_compacted merges, asOf_append,
    asOf_append, factsOn, sound.segmentsOn,
    sound.pastOn, ← live, ← dead, List.append_assoc]
  rfl

theorem Sound.live_compacted {all : List (Segment F)} {merged : Merged F} {writer : Option Nat}
    (sound : s.Sound disk segments past)
    (pieces : Pieces s segments all) (merges : MergeOf s all merged)
    (sound' : ({ s.compacted merged with wal := writer } : Store F).Sound disk' merged.segments
      (past ++ merged.history)) :
    ({ s.compacted merged with wal := writer } : Store F).liveRows disk' =
      (sortFacts s.orderingKey ((s.factsOn disk).filter (·.alive))).map (·.value) := by
  have moved : (s.compacted merged).Sound disk' merged.segments (past ++ merged.history) :=
    sound'.withWal s.wal
  have live := sound.facts_merged pieces true
  simp only [Bool.not_true, Bool.decide_eq_true, Bool.decide_eq_false] at live
  rw [sound'.liveRows_latest]
  change living ((s.compacted merged).latestFacts merged.segments) = _
  rw [moved.latest_compacted merges, factsOn, sound.segmentsOn, ← live]
  change living _ = ((orderOf s all).map s.entryFact).map (·.value)
  unfold living
  rw [List.filter_eq_self.mpr]
  intro fact member
  obtain ⟨entry, inside, rfl⟩ := List.mem_map.mp member
  have alive := (List.mem_filter.mp ((List.mem_insertionSort _).mp inside)).2
  simpa [Fact.alive, entryFact, isKilled] using alive

theorem Sound.liveRows_facts (sound : s.Sound disk segments past) :
    s.liveRows disk = ((s.factsOn disk).filter (·.alive)).map (·.value) := by
  rw [sound.liveRows_latest, factsOn, sound.segmentsOn, living]

omit [F64 F] in
theorem sortFacts_sorted {orderingKey : Nat} (facts : List (Fact (Row F))) :
    (sortFacts orderingKey facts).Pairwise fun left right =>
    orderingValue orderingKey left.value ≤ orderingValue orderingKey right.value :=
  have : Std.Total fun left right : Fact (Row F) => orderingValue orderingKey left.value ≤
      orderingValue orderingKey right.value :=
    ⟨fun _ _ => Int64.le_total _ _⟩
  have : IsTrans (Fact (Row F)) fun left right => orderingValue orderingKey left.value ≤
      orderingValue orderingKey right.value :=
    ⟨fun _ _ _ => Int64.le_trans⟩
  List.pairwise_insertionSort _ _

omit [F64 F] in
theorem sortFacts_eq {facts : List (Fact (Row F))} {orderingKey : Nat}
    (sorted : (facts.map (·.value)).Pairwise fun left right => orderingValue orderingKey left ≤
      orderingValue orderingKey right) :
    sortFacts orderingKey facts = facts := by
  rw [List.pairwise_map] at sorted
  exact sorted.insertionSort_eq

/-- A compaction that fails is unseen if it has not reached its commit or moves no row. -/
theorem Steady.compact_unseen_iff (steady : s.Steady disk segments past)
    (ran : Program.run backend (compact s) ⟨disk, []⟩ plan = .returned (.error e, s') w rest) :
    s.Unseen disk s' w.disk ↔ FailsUnder prepareCompact s disk plan ∨ s.Orderly disk := by
  rw [compact_eq] at ran
  have prepares : Fallible.wp backend (fun _ _ _ => True) (fun _ => True) prepareCompact
      (fun result middle w₁ =>
      match result with
      | .error _ => middle = s ∧ s.Steady w₁.disk segments past
      | .ok prepared =>
          ∃ all merged, prepared = (s, merged) ∧ Pieces s segments all ∧ MergeOf s all merged ∧
          middle.adopted (s.mergedSections merged) merged = s.compacted merged ∧
          (s.compacted merged).Steady w₁.disk merged.segments (past ++ merged.history)) s ⟨disk, []⟩ :=
    wp_prepareCompact (w := ⟨disk, []⟩) steady (fun _ _ => trivial) (fun _ _ steady₁ => ⟨rfl, steady₁⟩)
      fun all merged _ _ pieces merges adopts steady₁ =>
        ⟨all, merged, rfl, pieces, merges, adopts, steady₁⟩
  rcases Fallible.run_bind ran with ⟨e', -, first⟩ | ⟨prepared, middle, w₁, left, first, second⟩
  · obtain ⟨rfl, steady'⟩ := Fallible.wp_ran prepares first
    exact iff_of_true (steady.sound.unseen steady'.sound rfl) (.inl (failsUnder first))
  · obtain ⟨all, merged, rfl, pieces, merges, adopts, steady₁⟩ := Fallible.wp_ran prepares first
    have finishes : Fallible.wp backend (fun _ _ _ => True) (fun _ => True)
        (finishCompact (s, merged)) (fun _ s' w' =>
        ∃ writer, s' = { s.compacted merged with wal := writer } ∧
        s'.Steady w'.disk merged.segments (past ++ merged.history)) middle w₁ :=
      wp_finishCompact adopts steady₁ (fun _ _ _ _ => trivial) fun _ _ writer _ steady' =>
        ⟨writer, rfl, steady'⟩
    obtain ⟨writer, rfl, steady'⟩ := Fallible.wp_ran finishes second
    rw [or_iff_right (not_failsUnder first)]
    have known := steady.sound.known_compacted pieces merges steady'.sound
    have live := steady.sound.live_compacted pieces merges steady'.sound
    constructor
    · intro unseen
      have sorted : (s.liveRows disk).Pairwise fun left right => orderingValue s.orderingKey left ≤
          orderingValue s.orderingKey right := by
        rw [← unseen.live, live]
        exact List.pairwise_map.mpr (sortFacts_sorted _)
      refine ⟨sorted, fun cut => ?_⟩
      rw [steady.sound.liveRows_facts] at sorted
      rw [← unseen.known cut, known, sortFacts_eq sorted]
    · rintro ⟨sorted, listed⟩
      rw [steady.sound.liveRows_facts] at sorted
      refine ⟨?_, watermark_compacted merges, fun cut => ?_⟩
      · rw [live, sortFacts_eq sorted, steady.sound.liveRows_facts]
      · rw [known, sortFacts_eq sorted, listed]

end Operations

end Store

/-- A mutation that fails, in any state that a run reaches, is unseen if and only if it fails early.
-/
theorem Reached.unseen_iff {rules : Rules F} {schema : Schema} {orderingKey : Nat}
    {options : StoreOptions → Prop}
    {allow : World F → Call F → Outcome → Prop} {op : Op F} {plan rest : List Outcome}
    {e : StorageError}
    (reached : Reached rules schema orderingKey options allow (.up s disk))
    (ran : Program.run backend (op.perform s) ⟨disk, []⟩ plan = .returned (.error e, s') w rest) :
    s.Unseen disk s' w.disk ↔ op.FailsEarly s disk plan := by
  obtain ⟨-, -, segments, past, steady, -⟩ := reached.upheld upholds_steady
  obtain ⟨segments', past', conduct, steady'⟩ := steady.ran (Program.admits_all _ _ _) ran
  have unseen (other : (∀ row, op ≠ .append row) ∧ (∀ rows victims, op ≠ .supersede rows victims) ∧
    op ≠ .compact) :
      s.Unseen disk s' w.disk := steady.sound.unseen steady'.sound (conduct.refused other)
  cases op with
  | append row => exact steady.append_unseen_iff ran
  | supersede rows victims => exact steady.supersede_unseen_iff ran
  | tombstone ids => exact iff_of_true (unseen (by simp)) trivial
  | flush => exact iff_of_true (unseen (by simp)) trivial
  | compact =>
    rcases Fallible.run_bind ran with ⟨e', -, first⟩ | ⟨_, middle, w₁, left, first, second⟩
    · exact steady.compact_unseen_iff first
    · cases second

/-! ### Two appends that fail -/

/-- Operations of any kind, under any failure. -/
def Anything : Rules F := ⟨fun _ _ _ => True, fun _ _ _ _ => True⟩

/-- The first append to a table that flushes every row, under a plan. -/
def attempted (plan : List Outcome) : Option
      (Store UInt64 × Disk UInt64 × StorageError × Store UInt64 × World UInt64 × List Outcome) := do
  let (store, disk) ← openTable tagged 0 eager .empty
  match Program.run backend ((Op.append [.i64 1, .key "a"]).perform store) ⟨disk, []⟩ plan with
  | .returned (.error e, after) w rest => some (store, disk, e, after, w, rest)
  | _ => none

theorem attempted_reached {plan rest : List Outcome} {s s' : Store UInt64} {disk : Disk UInt64}
    {w : World UInt64} {e : StorageError}
    (made : attempted plan = some (s, disk, e, s', w, rest)) :
    Reached Anything tagged 0 (fun _ => True) (fun _ _ _ => True) (.up s disk) ∧
      Program.run backend ((Op.append [.i64 1, .key "a"]).perform s) ⟨disk, []⟩ plan = .returned
        (.error e, s') w rest := by
  rw [attempted] at made
  obtain ⟨⟨store, disk'⟩, opened, made⟩ := Option.bind_eq_some_iff.mp made
  simp only at made
  split at made
  · next e' after w' rest' ran =>
    cases made
    exact ⟨.stored (.boot (.blank fun _ => rfl)
      (Boot.completes trivial (fun _ _ => trivial) opened)), ran⟩
  · cases made

/-- The sync of its record fails, and the append is unseen. -/
theorem Reached.unseen_unsynced : ∃ (s s' : Store UInt64) (disk disk' : Disk UInt64),
    s.liveRows disk = [] ∧ s.Unseen disk s' disk' := by
  obtain ⟨⟨s, disk, e, s', w, rest⟩, made⟩ : ∃ result, attempted [.ok, .err .nothing] = some result :=
    Option.isSome_iff_exists.mp (by decide +kernel)
  have early : (attempted [.ok, .err .nothing]).map (fun (s, disk, _) =>
      (decide (FailsUnder (Store.prepareAppend [.i64 1, .key "a"]) s disk [.ok, .err .nothing]),
      s.liveRows disk)) =
    some (true, []) := by decide +kernel
  rw [made] at early
  have facts := Option.some.inj early
  simp only [Prod.mk.injEq] at facts
  obtain ⟨reached, ran⟩ := attempted_reached made
  have fails : FailsUnder (Store.prepareAppend [.i64 1, .key "a"]) s disk [.ok, .err .nothing] :=
    of_decide_eq_true facts.1
  exact ⟨s, s', disk, w.disk, facts.2, (Reached.unseen_iff reached ran).mpr fails⟩

/-- The flush that its row asks for fails, and the row stays. -/
theorem attempted_seen :
    ¬ ∀ (s s' : Store UInt64) (disk : Disk UInt64) (op : Op UInt64) (plan rest :
      List Outcome) (e : StorageError)
    (w : World UInt64), Reached Anything tagged 0 (fun _ => True) (fun _ _ _ => True) (.up s disk) →
      Program.run backend (op.perform s) ⟨disk, []⟩ plan = .returned (.error e, s') w rest →
      s.Unseen disk s' w.disk := by
  intro claim
  obtain ⟨⟨s, disk, e, s', w, rest⟩, made⟩ : ∃ result,
      attempted [.ok, .ok, .err .nothing] = some result :=
    Option.isSome_iff_exists.mp (by decide +kernel)
  have shown : (attempted [.ok, .ok, .err .nothing]).map
    (fun (s, disk, _, s', w, _) => (s.nextSequence, s'.liveRows w.disk, s'.nextSequence)) =
    some (0, [[.i64 1, .key "a"]], 1) := by decide +kernel
  rw [made] at shown
  have facts := Option.some.inj shown
  simp only [Prod.mk.injEq] at facts
  obtain ⟨reached, ran⟩ := attempted_reached made
  have next := (claim s s' disk _ _ rest e w reached ran).next
  rw [facts.1, facts.2.2] at next
  cases next

end TallyDB
