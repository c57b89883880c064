import TallyDB.Chronicle.Fact
import TallyDB.StorageLite.Conduct
import TallyDB.StorageLite.Shown

/-!
# The facts of a store

A store is a chronicle: every row it holds or remembers is a fact, and the watermark is the
next coordinate. What an operation can do to a store is a turn of that chronicle, and a
knowledge snapshot shows what the chronicle knew.
-/

namespace TallyDB

open Crash Chronicle

variable {F : Type} [F64 F] {s s' : Store F} {w : World F} {disk : Disk F}
  {segments segments' past past' : List (Segment F)}

/-- Facts are the same if their values, births and deaths are. -/
theorem facts_ext {α : Type} {facts others : List (Fact α)}
    (values : facts.map (·.value) = others.map (·.value))
    (births : facts.map (·.birth) = others.map (·.birth))
    (deaths : facts.map (·.death) = others.map (·.death)) :
    facts = others := by
  induction facts generalizing others with
  | nil => exact (List.map_eq_nil_iff.mp values.symm).symm
  | cons fact facts ih =>
    cases others with
    | nil => cases values
    | cons other others =>
      simp only [List.map_cons, List.cons.injEq] at values births deaths
      obtain ⟨value, birth, death⟩ := fact
      obtain ⟨value', birth', death'⟩ := other
      obtain rfl : value = value' := values.1
      obtain rfl : birth = birth' := births.1
      obtain rfl : death = death' := deaths.1
      rw [ih values.2 births.2 deaths.2]

/-- The facts of a history segment. An unknown kill counts as one at zero. -/
def Segment.pastFacts (segment : Segment F) : List (Fact (Row F)) :=
  (List.range segment.numRows).map fun row =>
    ⟨segment.row row, segment.sequenceAt row, some (segment.superseded.elim 0 (·.getD row 0))⟩

namespace Store

def latestFacts (store : Store F) (segments : List (Segment F)) : List (Fact (Row F)) :=
  ((segments.flatMap Segment.rows ++ store.buffer.rows).zip
    (segments.flatMap Segment.births ++ store.bufferBirths)).zipIdx.map
    fun entry => ⟨entry.1.1, entry.1.2, store.killedAt entry.2⟩

def book (store : Store F) (segments past : List (Segment F)) : Book (Row F) where
  facts := store.latestFacts segments ++ past.flatMap Segment.pastFacts
  next := store.watermark

theorem Sound.births_length (sound : s.Sound disk segments past) :
    (segments.flatMap Segment.births ++ s.bufferBirths).length =
    (segments.flatMap Segment.rows ++ s.buffer.rows).length := by
  have lengths : (segments.flatMap Segment.births).length = (segments.flatMap Segment.rows).length := by
    rw [List.length_flatMap, List.length_flatMap]
    congr 1
    exact List.map_congr_left fun segment _ =>
      segment.births_length.trans (TallyDB.rows_length segment).symm
  rw [List.length_append, List.length_append, lengths, bufferBirths_length sound.axis]
  rfl

theorem Sound.latest_values (sound : s.Sound disk segments past) :
    (s.latestFacts segments).map (·.value) = segments.flatMap Segment.rows ++ s.buffer.rows := by
  have lengths := sound.births_length
  refine List.ext_getElem (by simp [latestFacts] at lengths ⊢; omega) fun id bound _ => ?_
  simp [latestFacts]

theorem Sound.latest_births (sound : s.Sound disk segments past) :
    (s.latestFacts segments).map (·.birth) = segments.flatMap Segment.births ++ s.bufferBirths := by
  have lengths := sound.births_length
  refine List.ext_getElem (by simp [latestFacts] at lengths ⊢; omega) fun id bound _ => ?_
  simp [latestFacts]

theorem Sound.latest_deaths (sound : s.Sound disk segments past) :
    (s.latestFacts segments).map (·.death) = (List.range s.rows).map s.killedAt := by
  have lengths := sound.births_length
  have count := sound.rows_length
  refine List.ext_getElem (by simp [latestFacts] at lengths count ⊢; omega) fun id bound _ => ?_
  simp [latestFacts]

theorem Sound.latest_length (sound : s.Sound disk segments past) :
    (s.latestFacts segments).length = s.rows := by
  have deaths := congrArg List.length sound.latest_deaths
  simpa using deaths

theorem Sound.latest_eq (sound : s.Sound disk segments past) {facts : List (Fact (Row F))}
    (values : facts.map (·.value) = segments.flatMap Segment.rows ++ s.buffer.rows)
    (births : facts.map (·.birth) = segments.flatMap Segment.births ++ s.bufferBirths)
    (deaths : facts.map (·.death) = (List.range s.rows).map s.killedAt) :
    s.latestFacts segments = facts :=
  facts_ext (sound.latest_values.trans values.symm) (sound.latest_births.trans births.symm)
    (sound.latest_deaths.trans deaths.symm)

theorem Sound.born (sound : s.Sound disk segments past) : ∀ fact ∈ s.latestFacts segments,
    fact.birth < s.watermark :=
  fun _ member => sound.below _ (sound.latest_births ▸ List.mem_map_of_mem member)

theorem Sound.latest_get (sound : s.Sound disk segments past) {id : Nat} {fact : Fact (Row F)}
    (held : (s.latestFacts segments)[id]? = some fact) : id < s.rows ∧ fact.death = s.killedAt id := by
  have bound := (List.getElem?_eq_some_iff.mp held).1
  rw [sound.latest_length] at bound
  have deaths := congrArg (·[id]?) sound.latest_deaths
  simp only [List.getElem?_map, held, List.getElem?_range bound, Option.map_some,
    Option.some.injEq] at deaths
  exact ⟨bound, deaths⟩

theorem Sound.named_alive (sound : s.Sound disk segments past) {ids : List Nat}
    (alive : ∀ id ∈ ids, s.isKilled id = false) :
    ∀ id ∈ ids, ∀ fact, (s.latestFacts segments)[id]? = some fact → fact.alive = true := by
  intro id member fact held
  have living := alive id member
  rw [Fact.alive, (sound.latest_get held).2]
  simpa [isKilled] using living

/-! ### What each change makes of the facts -/

/-- A flush moves rows and changes no fact. -/
theorem Settles.latest (settles : s.Settles segments s' segments') :
    s'.latestFacts segments' = s.latestFacts segments := by
  cases settles with
  | kept => rfl
  | moved segment sections writer flushed' frozen filled next logs old =>
    have births : (s.flushedWith segment sections writer).bufferBirths = [] :=
      @flushed_births F s segment
    unfold latestFacts
    rw [List.flatMap_append, List.flatMap_singleton, frozen.rows, List.flatMap_append,
      List.flatMap_singleton, frozen.births, births,
      List.append_nil]
    simp only [flushedWith, Store.flushed, WriteBuffer.empty, List.append_nil]
    rfl

theorem Settles.book (settles : s.Settles segments s' segments') :
    s'.book segments' past = s.book segments past := by
  unfold Store.book
  rw [settles.latest, Flushes.watermark settles]

theorem Sound.latest_replays (sound : s.Sound disk segments past) {units : List (Replayed F)}
    (replays : s.Replays units s') :
    s'.latestFacts segments = s.latestFacts segments ++
      ((unitRows units).zip (replayBirths s.watermark units).1).map fun entry =>
        ⟨entry.1, entry.2, none⟩ := by
  have sound' := sound.replays replays
  have counts := replayBirths_length s.watermark units
  have tombstones : s'.tombstones = s.tombstones := by
    obtain ⟨buffer, knowledge, count, same⟩ := replays.frame
    rw [same]
  have grown : s'.rows = s.rows + (unitRows units).length := by
    rw [← sound.rows_length, ← sound'.rows_length, replays.rows, ← List.append_assoc,
      List.length_append]
  refine sound'.latest_eq ?_ ?_ ?_
  · rw [List.map_append, sound.latest_values, List.map_map, replays.rows, List.append_assoc]
    congr 2
    exact List.map_fst_zip counts.ge
  · rw [List.map_append, sound.latest_births, List.map_map, replays.births, List.append_assoc]
    congr 2
    exact List.map_snd_zip counts.le
  · rw [List.map_append, sound.latest_deaths, List.map_map, grown, List.range_add, List.map_append]
    have same : s'.killedAt = s.killedAt := funext fun id => congrArg (List.lookup id) tombstones
    rw [same]
    congr 1
    refine List.ext_getElem (by simp [counts]) fun index bound _ => ?_
    have alive : s.killedAt (s.rows + index) = none := by
      cases dead : s.killedAt (s.rows + index) with
      | none => rfl
      | some stamp =>
          exact absurd (sound.killed (s.rows + index) (by rw [isKilled, dead]; rfl)) (by omega)
    simp [alive]

theorem Sound.latest_taken (sound : s.Sound disk segments past) {row : Row F}
    (valid : s.buffer.validate row = .ok ()) :
    (s.taken row valid).latestFacts segments = s.latestFacts segments ++
    [Fact.bornAt s.watermark row] :=
  sound.latest_replays (.ordinary sound.axis valid)

theorem Sound.latest_superseding (sound : s.Sound disk segments past) {rows : List (Row F)}
    {sequence : Nat}
    (replays : s.Replays [.supersession sequence rows] s') :
    s'.latestFacts segments = s.latestFacts segments ++ rows.map (Fact.bornAt sequence) := by
  rw [sound.latest_replays replays]
  congr 1
  simp only [unitRows, List.flatMap_cons, List.flatMap_nil, List.append_nil, Replayed.rows,
    replayBirths, Replayed.births]
  refine List.ext_getElem (by simp) fun index bound _ => ?_
  simp [Fact.bornAt]

omit [F64 F] in
theorem killedAt_killing (ids : List Nat) (stamp id : Nat) :
    (s.killing ids stamp).killedAt id = if id ∈ ids then some stamp else s.killedAt id :=
  lookup_buried ids stamp s.tombstones id

/-- A kill ends the facts that it names. -/
theorem latest_killing (ids : List Nat) (stamp : Nat) :
    (s.killing ids stamp).latestFacts segments = endNamed ids stamp (s.latestFacts segments) := by
  unfold latestFacts endNamed
  refine List.ext_getElem (by simp [killing, bury, bufferBirths]) fun id bound _ => ?_
  simp only [List.getElem_map, List.getElem_zipIdx, Nat.zero_add, killedAt_killing]
  split
  · rfl
  · rfl

theorem latest_consume (axis : s.AxisOk) : (s.consumeSequence s.rows).latestFacts segments =
      s.latestFacts segments := by
  unfold latestFacts
  rw [consume_births axis]
  rfl

/-! ### Compaction -/

section Compact

variable {all : List (Segment F)} {merged : Merged F}

def entryFact (store : Store F) (entry : MergeEntry F) : Fact (Row F) :=
  ⟨entry.cells, entry.birth, store.killedAt entry.id⟩

theorem Sound.latest_pieces (sound : s.Sound disk segments past) (pieces : Pieces s segments all) :
    s.latestFacts segments = (entriesOf s.orderingKey all).map s.entryFact := by
  refine sound.latest_eq ?_ ?_ ?_
  · rw [← pieces.rows, ← @entriesOf_cells F _ all s.orderingKey, List.map_map]
    rfl
  · rw [← pieces.births, ← @entriesOf_births F all s.orderingKey, List.map_map]
    rfl
  · have ids := @entriesOf_ids F all s.orderingKey 0 s.rows pieces.covers
    rw [List.range_eq_range', ← Nat.sub_zero s.rows, ← ids, List.map_map, List.map_map]
    rfl

theorem pastFacts_values (segment : Segment F) : segment.pastFacts.map (·.value) = segment.rows := by
  rw [Segment.pastFacts, List.map_map]
  rfl

theorem pastFacts_births (segment : Segment F) : segment.pastFacts.map (·.birth) = segment.births := by
  rw [Segment.pastFacts, List.map_map]
  rfl

theorem pastFacts_deaths {schema : Schema} {orderingKey : Nat} {segment : Segment F}
    (ok : HistoryOk schema orderingKey segment) :
    segment.pastFacts.map (·.death) = (segment.superseded.getD []).map some := by
  obtain ⟨kills, known, count⟩ := ok.kills
  rw [Segment.pastFacts, List.map_map, known, Option.getD_some]
  refine List.ext_getElem (by simp [count]) fun index bound _ => ?_
  have inside : index < kills.length := by
    rw [List.length_map, List.length_range] at bound
    omega
  simp [List.getD_eq_getElem?_getD, inside]

/-- A compacted store holds the living facts, in merge order. -/
theorem Sound.latest_compacted (sound : (s.compacted merged).Sound disk merged.segments past')
    (merges : MergeOf s all merged) :
    (s.compacted merged).latestFacts merged.segments = (orderOf s all).map s.entryFact := by
  have births := bufferBirths_empty sound.axis rfl
  refine sound.latest_eq ?_ ?_ ?_
  · rw [List.map_map]
    exact (merges.cells.symm).trans (List.append_nil _).symm
  · rw [List.map_map, births, List.append_nil]
    exact merges.births.symm
  · have none : (List.range (s.compacted merged).rows).map (s.compacted merged).killedAt =
        List.replicate merged.rows none :=
      List.eq_replicate_iff.mpr ⟨by simp [Store.compacted, adopted], fun death member => by
        obtain ⟨id, -, rfl⟩ := List.mem_map.mp member
        rfl⟩
    rw [none, List.map_map, merges.rows]
    refine List.eq_replicate_iff.mpr ⟨by simp, fun death member => ?_⟩
    obtain ⟨entry, inside, rfl⟩ := List.mem_map.mp member
    have alive := (List.mem_filter.mp ((List.mem_insertionSort _).mp inside)).2
    simpa [entryFact, isKilled] using alive

/-- Its new history holds the facts that had ended. -/
theorem past_compacted (merges : MergeOf s all merged) :
    merged.history.flatMap Segment.pastFacts = (deadOf s all).map s.entryFact := by
  refine facts_ext ?_ ?_ ?_
  · rw [List.map_flatMap, List.map_map]
    simp only [pastFacts_values]
    exact merges.historyCells
  · rw [List.map_flatMap, List.map_map]
    simp only [pastFacts_births]
    exact merges.historyBirths
  · have deaths : (merged.history.flatMap Segment.pastFacts).map (·.death) =
        (merged.history.flatMap (·.superseded.getD [])).map some := by
      rw [List.map_flatMap, List.map_flatMap]
      simp only [List.flatMap]
      congr 1
      exact List.map_congr_left fun segment member => pastFacts_deaths (merges.historyOk segment member)
    rw [deaths, merges.historyKills, List.map_map, List.map_map]
    refine List.map_congr_left fun entry inside => ?_
    have dead := (List.mem_filter.mp ((List.mem_insertionSort _).mp inside)).2
    obtain ⟨stamp, killed⟩ := Option.isSome_iff_exists.mp dead
    simp [entryFact, killed]

/-- Compaction keeps every fact. -/
theorem Sound.book_compacted {disk' : Disk F} (sound : s.Sound disk segments past)
    (pieces : Pieces s segments all)
    (merges : MergeOf s all merged)
    (sound' : (s.compacted merged).Sound disk' merged.segments (past ++ merged.history)) :
    (s.book segments past).Still
    ((s.compacted merged).book merged.segments (past ++ merged.history)) where
  facts := by
    change (s.latestFacts segments ++ _).Perm ((s.compacted merged).latestFacts merged.segments ++ _)
    rw [sound.latest_pieces pieces, sound'.latest_compacted merges, List.flatMap_append,
      past_compacted merges]
    have parts := List.filter_append_perm (fun entry => s.isKilled entry.id)
      (entriesOf s.orderingKey all)
    have sorted : (entriesOf s.orderingKey all).Perm (orderOf s all ++ deadOf s all) := by
      refine parts.symm.trans (List.perm_append_comm.trans (List.Perm.append ?_ ?_))
      · exact (List.perm_insertionSort _ _).symm
      · exact (List.perm_insertionSort _ _).symm
    refine ((sorted.map s.entryFact).append_right _).trans ?_
    rw [List.map_append, List.append_assoc]
    exact List.perm_append_comm.append_left _
  next := watermark_compacted merges

end Compact

/-! ### What an operation makes of the chronicle -/

def killsOf (store : Store F) : Op F → List Nat
  | .tombstone ids => store.newlyDead ids
  | .supersede _ victims => store.newlyDead victims
  | _ => []

def rowsOf : Op F → List (Row F)
  | .append row => [row]
  | .supersede rows _ => rows
  | _ => []

/-- A supersession that kills and brings nothing, which uses up no coordinate. -/
def Slips (store : Store F) : Op F → Prop
  | .supersede rows victims => rows = [] ∧ store.newlyDead victims ≠ []
  | _ => False

variable {op : Op F} {result : Except StorageError Nat} {rows : List (Row F)} {ids : List Nat}

/-- The facts once rows are taken at the next coordinate and others are killed at it. -/
theorem Sound.latest_turned {first taken committed : Store F}
    {segments₁ segments₂ : List (Segment F)} (sound : s.Sound disk segments past)
    (inside : ∀ id ∈ ids, id < s.rows) (settles : s.Settles segments first segments₁)
    (sound₁ : first.Sound disk segments₁ past)
    (takes : first.Replays [.supersession s.watermark rows] taken)
    (after : taken.Settles segments₁ committed segments₂) :
    endNamed ids s.watermark (committed.latestFacts segments₂) =
      endNamed ids s.watermark (s.latestFacts segments) ++ rows.map (Fact.bornAt s.watermark) := by
  rw [after.latest, sound₁.latest_superseding takes, settles.latest,
    endNamed_append fun id member => ?_]
  rw [sound.latest_length]
  exact inside id member

/-- Rows that are taken at the next coordinate, and then kills at it, are one turn. -/
theorem Sound.turns {first taken committed : Store F} {segments₁ segments₂ : List (Segment F)}
    (sound : s.Sound disk segments past)
    (alive : ∀ id ∈ ids, s.isKilled id = false) (inside : ∀ id ∈ ids, id < s.rows)
    (settles : s.Settles segments first segments₁)
    (sound₁ : first.Sound disk segments₁ past)
    (takes : first.Replays [.supersession s.watermark rows] taken)
    (after : taken.Settles segments₁ committed segments₂) (next : s.watermark ≤ s'.watermark)
    (facts : s'.latestFacts segments' = endNamed ids s.watermark (committed.latestFacts segments₂)) :
    (s.book segments past).Turns (named ids (s.latestFacts segments)) rows
    (s'.book segments' past) := by
  refine .named rfl (sound.named_alive alive) (.of_eq ?_) next
  change s'.latestFacts segments' ++ _ = _
  rw [facts, sound.latest_turned inside settles sound₁ takes after]
  rfl

theorem Settles.sound (settles : s.Settles segments s' segments') (sound : s.Sound disk segments past) :
    s'.Sound disk segments' past := by
  cases settles with
  | kept => exact sound
  | moved segment sections writer flushed' frozen filled next logs old =>
    exact (sound.adoptFlushed frozen (sound.frozenOk frozen filled) next.2).withWal writer

omit [F64 F] in
theorem Turns.idle {start after : Book (Row F)} {facts : List (Fact (Row F))}
    (turns : start.Turns (named [] facts) [] after)
    (next : after.next = start.next) : start.Still after := by
  obtain ⟨kept, old, new⟩ := turns.split
  refine ⟨old.trans ?_, next⟩
  rw [named_nil, List.append_nil]
  simpa [named_nil] using new.symm

/-- Rows that a supersession took before it failed. -/
theorem Sound.turns_partial {first taken : Store F} {segments₁ : List (Segment F)}
    (sound : s.Sound disk segments past)
    (settles : s.Settles segments first segments₁)
    (takes : first.Replays [.supersession s.watermark rows] taken)
    (after : taken.Settles segments₁ s' segments') :
    (s.book segments past).Turns (named [] (s.latestFacts segments)) rows (s'.book segments' past) ∧
      s'.watermark = if rows = [] then s.watermark else s.watermark + 1 := by
  have sound₁ := settles.sound sound
  have mark : s'.watermark = if rows = [] then s.watermark else s.watermark + 1 := by
    rw [Flushes.watermark after, takes.watermark, Flushes.watermark settles]
    simp [replayBirths, Replayed.births]
  refine ⟨sound.turns (by simp) (by simp) settles sound₁ takes after ?_ ?_, mark⟩
  · rw [mark]
    split <;> omega
  · rw [endNamed_nil]

theorem Sound.turns_superseded {first taken committed : Store F}
    {segments₁ segments₂ : List (Segment F)}
    (sound : s.Sound disk segments past) (alive : ∀ id ∈ ids, s.isKilled id = false)
    (inside : ∀ id ∈ ids, id < s.rows)
    (settles : s.Settles segments first segments₁)
    (takes : first.Replays [.supersession s.watermark rows] taken)
    (after : taken.Settles segments₁ committed segments₂)
    (finally_ : (committed.killing ids s.watermark).Settles segments₂ s' segments') :
    (s.book segments past).Turns (named ids (s.latestFacts segments)) rows (s'.book segments' past) ∧
      s'.watermark = if rows = [] then s.watermark else s.watermark + 1 := by
  have sound₁ := settles.sound sound
  have mark : s'.watermark = if rows = [] then s.watermark else s.watermark + 1 := by
    have own : (committed.killing ids s.watermark).watermark = committed.watermark := rfl
    rw [Flushes.watermark finally_, own, Flushes.watermark after, takes.watermark,
      Flushes.watermark settles]
    simp [replayBirths, Replayed.births]
  refine ⟨sound.turns alive inside settles sound₁ takes after ?_ ?_, mark⟩
  · rw [mark]
    split <;> omega
  · rw [finally_.latest, latest_killing]

theorem Sound.latest_killed {first : Store F} (sound : s.Sound disk segments past)
    (settles : s.Settles segments first segments') :
    ((first.killing ids s.watermark).consumeSequence first.rows).latestFacts segments' =
      endNamed ids s.watermark (s.latestFacts segments) := by
  have sound₁ := settles.sound sound
  have axis : (first.killing ids s.watermark).AxisOk :=
    ⟨sound₁.axis.counted, sound₁.axis.explicit, sound₁.axis.contiguous⟩
  have facts := @latest_consume F _ (first.killing ids s.watermark) segments' axis
  rw [latest_killing, settles.latest] at facts
  exact facts

theorem Sound.turns_killed {first : Store F} (sound : s.Sound disk segments past)
    (alive : ∀ id ∈ ids, s.isKilled id = false)
    (settles : s.Settles segments first segments') :
    (s.book segments past).Advances (named ids (s.latestFacts segments)) []
      (((first.killing ids s.watermark).consumeSequence first.rows).book segments' past) := by
  have mark : ((first.killing ids s.watermark).consumeSequence first.rows).watermark =
      s.watermark + 1 := by
    rw [← Flushes.watermark settles]
    exact consume_watermark (first.killing ids first.watermark)
  refine ⟨.named rfl (sound.named_alive alive) (.of_eq ?_)
    ((Nat.le_succ s.watermark).trans mark.ge), mark⟩
  change Store.latestFacts _ segments' ++ _ = _
  rw [sound.latest_killed settles]
  simp [book]

theorem Sound.turns_appended {row : Row F} (sound : s.Sound disk segments past)
    (valid : s.buffer.validate row = .ok ())
    (settles : (s.taken row valid).Settles segments s' segments') :
    (s.book segments past).Advances (named [] (s.latestFacts segments)) [row]
    (s'.book segments' past) := by
  have mark : s'.watermark = s.watermark + 1 :=
    (Flushes.watermark settles).trans (taken_watermark valid)
  refine ⟨.named rfl (by simp) (.of_eq ?_) ((Nat.le_succ s.watermark).trans mark.ge), mark⟩
  change s'.latestFacts segments' ++ _ = _
  rw [settles.latest, sound.latest_taken valid, endNamed_nil]
  rfl

/-- An operation is a turn of the chronicle, or leaves it still. Only a slip turns it without
using up a coordinate. -/
theorem Conduct.turns (conduct : s.Conduct segments past op result s' segments' past')
    (sound : s.Sound disk segments past)
    {disk' : Disk F} (sound' : s'.Sound disk' segments' past') :
    (s.book segments past).Still (s'.book segments' past') ∨ ∃ ids born,
    (∀ id ∈ ids, id < s.rows ∧ s.isKilled id = false) ∧
      (ids ≠ [] ∨ born ≠ []) ∧
      (s.book segments past).Turns (named ids (s.latestFacts segments)) born (s'.book segments' past') ∧
      (s'.watermark = s.watermark + 1 ∨ s.Slips op ∧ s'.watermark = s.watermark) := by
  cases conduct with
  | still _ _ _ _ settles answer =>
    rw [settles.book]
    exact .inl (.refl _)
  | append row valid _ _ _ settles answer =>
    have advances := sound.turns_appended valid settles
    exact .inr ⟨[], [row], by simp, .inr (by simp), advances.toTurns, .inl advances.next⟩
  | tombstone ids first _ newly settles mortal =>
    have alive (id : Nat) (member : id ∈ s.newlyDead ids) : s.isKilled id = false :=
      (mem_newlyDead.mp member).2
    have advances := sound.turns_killed alive settles
    exact .inr ⟨s.newlyDead ids, [], fun id member =>
      ⟨settles.inside mortal id member, alive id member⟩, .inl newly,
      advances.toTurns, .inl advances.next⟩
  | partial_ done rest victims e first taken _ segments₁ _ settles takes after =>
    obtain ⟨turns, mark⟩ := sound.turns_partial settles takes after
    by_cases bare : done = []
    · subst bare
      exact .inl (Turns.idle turns (mark.trans (if_pos rfl)))
    · exact .inr ⟨[], done, by simp, .inr bare, turns, .inl (mark.trans (if_neg bare))⟩
  | supersede rows victims _ first taken committed _ segments₁ segments₂ _ busy settles takes after
      inside mortal finally_ answer =>
    have alive (id : Nat) (member : id ∈ s.newlyDead victims) : s.isKilled id = false :=
      (mem_newlyDead.mp member).2
    obtain ⟨turns, mark⟩ := sound.turns_superseded alive inside settles takes after finally_
    refine .inr ⟨s.newlyDead victims, rows, fun id member =>
      ⟨inside id member, alive id member⟩, ?_, turns, ?_⟩
    · by_contra neither
      rw [not_or, not_not, not_not] at neither
      exact busy ⟨neither.2, neither.1⟩
    · by_cases bare : rows = []
      · have newly : s.newlyDead victims ≠ [] := fun none => busy ⟨bare, none⟩
        exact .inr ⟨⟨bare, newly⟩, mark.trans (if_pos bare)⟩
      · exact .inl (mark.trans (if_neg bare))
  | compact all merged writer _ pieces merges logs answer =>
    have sound₁ : (s.compacted merged).Sound disk' merged.segments (past ++ merged.history) := by
      have moved := sound'.withWal s.wal
      exact moved
    exact .inl (sound.book_compacted pieces merges sound₁)

end Store

end TallyDB
