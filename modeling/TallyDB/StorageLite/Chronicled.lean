import TallyDB.StorageLite.Restart

/-!
# The chronicle of a run

Where no supersession kills a row without bringing one, every coordinate in use lies below
the watermark, in every state that a run reaches.
-/

namespace TallyDB

open Crash Chronicle

variable {F : Type} [F64 F] {s s' : Store F} {disk disk' : Disk F}
  {segments segments' past past' : List (Segment F)}
variable {op : Op F} {result : Except StorageError Nat} {image : Image F} {schema : Schema}
  {orderingKey : Nat}

namespace Store

/-- Every coordinate of a store lies below its watermark, those of its history below what the
manifest records. -/
structure Chronicled (s : Store F) (segments past : List (Segment F)) : Prop where
  ordered : (s.book segments past).Ordered
  dated : (s.book segments past).Dated
  recorded : ∀ fact ∈ past.flatMap Segment.pastFacts, ∀ death ∈ fact.death,
    death < s.sections.nextSequence.getD 0
  next : s.sections.nextSequence.getD 0 ≤ s.watermark

theorem mem_book_latest {fact : Fact (Row F)} (member : fact ∈ s.latestFacts segments) :
    fact ∈ (s.book segments past).facts :=
  List.mem_append_left _ member

theorem mem_book_past {fact : Fact (Row F)} (member : fact ∈ past.flatMap Segment.pastFacts) :
    fact ∈ (s.book segments past).facts := List.mem_append_right _ member

theorem Settles.nextSequence (settles : s.Settles segments s' segments') :
    s'.sections.nextSequence = s.sections.nextSequence := by
  cases settles with
  | kept => rfl
  | moved segment sections writer flushed' frozen filled next logs old => exact next.1

omit [F64 F] in
theorem Replays.nextSequence {units : List (Replayed F)} (replays : s.Replays units s') :
    s'.sections.nextSequence = s.sections.nextSequence := by
  obtain ⟨buffer, knowledge, rows, same⟩ := replays.frame
  rw [same]

/-- A compaction records the watermark; any other operation leaves what is recorded. -/
theorem Conduct.recorded (conduct : s.Conduct segments past op result s' segments' past') :
    (past' = past ∧ s'.sections.nextSequence = s.sections.nextSequence) ∨
      ∃ all merged, past' = past ++ merged.history ∧ MergeOf s all merged ∧ s'.watermark = s.watermark ∧
        s'.sections.nextSequence = merged.watermark.or s.sections.nextSequence := by
  cases conduct with
  | still _ _ _ _ settles _ => exact .inl ⟨rfl, settles.nextSequence⟩
  | append row valid _ _ _ settles _ => exact .inl ⟨rfl, settles.nextSequence⟩
  | tombstone ids first _ _ settles _ => exact .inl ⟨rfl, settles.nextSequence⟩
  | partial_ done rest victims e first mid _ segments₁ _ settles takes after =>
    exact .inl ⟨rfl, after.nextSequence.trans (takes.nextSequence.trans settles.nextSequence)⟩
  | supersede rows victims _ first mid committed _ segments₁ segments₂ _ _ settles takes after _
      _ finally_ _ =>
    exact .inl ⟨rfl, finally_.nextSequence.trans
      (after.nextSequence.trans (takes.nextSequence.trans settles.nextSequence))⟩
  | compact all merged writer _ pieces merges _ _ =>
      exact .inr ⟨all, merged, rfl, merges, watermark_compacted merges, rfl⟩

/-- An operation that does not slip keeps the chronicle. -/
theorem Chronicled.conduct (chronicled : s.Chronicled segments past)
    (sound : s.Sound disk segments past)
    (conduct : s.Conduct segments past op result s' segments' past')
    (sound' : s'.Sound disk' segments' past')
    (firm : ¬ s.Slips op) : s'.Chronicled segments' past' := by
  have book : (s'.book segments' past').Ordered ∧ (s'.book segments' past').Dated ∧
      s.watermark ≤ s'.watermark := by
    rcases conduct.turns sound sound' with still | ⟨ids, born, -, -, turns, next | ⟨slips, -⟩⟩
    · exact ⟨chronicled.ordered.still still, chronicled.dated.still still, still.next.ge⟩
    · exact ⟨chronicled.ordered.turns chronicled.dated turns,
        chronicled.dated.advances ⟨turns, next⟩, turns.later⟩
    · exact absurd slips firm
  obtain ⟨ordered, dated, later⟩ := book
  rcases conduct.recorded with ⟨rfl, same⟩ | ⟨all, merged, rfl, merges, spent, same⟩
  · refine ⟨ordered, dated, ?_, ?_⟩
    · rw [same]
      exact chronicled.recorded
    · rw [same]
      exact chronicled.next.trans later
  · have own := merges.watermark
    cases mark : merged.watermark with
    | none =>
      -- A compaction that records no watermark retains nothing.
      rw [mark, Option.none_or] at same
      have nothing : merged.history.flatMap Segment.pastFacts = [] := by
        rw [past_compacted merges, merges.idle mark, List.map_nil]
      refine ⟨ordered, dated, ?_, ?_⟩
      · rw [same, List.flatMap_append, nothing, List.append_nil]
        exact chronicled.recorded
      · rw [same]
        exact chronicled.next.trans later
    | some recorded =>
      rw [mark, Option.some_or] at same
      rw [mark, Option.getD_some, ← spent] at own
      refine ⟨ordered, dated, fun fact member death ends => ?_, ?_⟩
      · rw [same, Option.getD_some, own]
        exact (dated fact (mem_book_past member)).2 death ends
      · rw [same, Option.getD_some, own]

/-! ### What a chronicled store leaves -/

/-- An image that a chronicled store may leave. -/
structure Aged (image : Image F) : Prop where
  ordered : ∀ id stamp, image.kills.lookup id = some stamp → ∀ birth,
    (image.visible.flatMap Segment.births)[id]? = some birth →
    birth < stamp
  past : ∀ fact ∈ image.past.flatMap Segment.pastFacts, ∀ death ∈ fact.death,
    fact.birth < death ∧ death < image.sections.nextSequence.getD 0

theorem Sound.latest_birth (sound : s.Sound disk segments past) {id birth : Nat}
    (held : (segments.flatMap Segment.births ++ s.bufferBirths)[id]? = some birth) :
    ∃ fact, (s.latestFacts segments)[id]? = some fact ∧ fact.birth = birth ∧
    fact.death = s.killedAt id := by
  rw [← sound.latest_births, List.getElem?_map] at held
  obtain ⟨fact, found, same⟩ := Option.map_eq_some_iff.mp held
  exact ⟨fact, found, same, (sound.latest_get found).2⟩

theorem Chronicled.left (chronicled : s.Chronicled segments past) (steady : s.Steady disk segments past)
    (stored : s.persistent = true) : Aged (s.left disk segments past) where
  ordered id stamp killed birth held := by
    have killed : s.killedAt id = some stamp := killed
    have durable := (steady.filed stored).killedDurable id (by rw [isKilled, killed]; rfl)
    -- A store with kills has segments, and so no orphan.
    have visible : (s.left disk segments past).visible = segments := by
      have filled : segments ≠ [] := fun none => by
        have covers := steady.sound.covers
        rw [none] at covers
        have empty : 0 = s.bufferBase := covers
        omega
      have orphan : (s.left disk segments past).orphan = none := ((steady.stands stored).alone filled)
      rw [Image.visible, orphan]
      exact List.append_nil segments
    rw [visible] at held
    have inside := (List.getElem?_eq_some_iff.mp held).1
    obtain ⟨fact, found, rfl, death⟩ :=
      steady.sound.latest_birth ((List.getElem?_append_left inside).trans held)
    exact chronicled.ordered fact (mem_book_latest (List.mem_of_getElem? found)) stamp
      (death.trans killed)
  past fact member death ends :=
    ⟨chronicled.ordered fact (mem_book_past member) death ends,
      chronicled.recorded fact member death ends⟩

omit [F64 F] in
theorem recoveredWatermark_recorded (recorded : Option Nat) (tombstones : Tombstones)
    (slots : List (SegmentSlot F)) (total : Nat) :
    recorded.getD 0 ≤ (recoveredWatermark recorded tombstones slots).getD total := by
  cases recorded with
  | none => exact Nat.zero_le _
  | some next =>
    rw [recoveredWatermark, if_pos (by simp), Option.getD_some, Option.getD_some]
    exact (Nat.le_max_left _ _).trans (foldl_max_le_iff.mp (Nat.le_refl _)).1

omit [F64 F] in
/-- The rows of a covering list of segments have as many births. -/
theorem Covers.births_length {last : Nat} (covers : Covers 0 segments last) :
    (segments.flatMap Segment.births).length = last := by
  have total := covers.total
  rw [List.length_flatMap, ← total, Nat.zero_add]
  congr 1
  exact List.map_congr_left fun segment _ => segment.births_length

/-- A restart keeps the chronicle. -/
theorem Aged.restarts {fresh : Store F} (aged : Aged image) (on : image.Stands disk schema orderingKey)
    (restarts : fresh.Restarts image s disk') : s.Chronicled image.visible image.past := by
  have sound := restarts.steady.sound
  have recorded : s.sections.nextSequence.getD 0 ≤ s.watermark := by
    rw [restarts.nextSequence]
    exact (recoveredWatermark_recorded _ s.tombstones image.slots image.total).trans restarts.watermark
  have latest {id : Nat} {fact : Fact (Row F)} {death : Nat}
    (held : (s.latestFacts image.visible)[id]? = some fact)
      (ends : fact.death = some death) : fact.birth < death ∧ death < s.watermark := by
    have killed : s.tombstones.lookup id = some death := (sound.latest_get held).2.symm.trans ends
    have before : fact.birth < death := by
      rw [restarts.kills] at killed
      have inside := on.killed id (by rw [killed]; rfl)
      have births := congrArg (·[id]?) sound.latest_births
      simp only [List.getElem?_map, held, Option.map_some] at births
      rw [List.getElem?_append_left (by rw [Covers.births_length on.covers]; exact inside)] at births
      exact aged.ordered id death killed fact.birth births.symm
    obtain ⟨next, recovered, above⟩ :=
      @recoveredWatermark_killed F image.sections.nextSequence s.tombstones image.slots id death
      (mem_of_lookup killed) (Nat.zero_lt_of_lt before)
    have under := restarts.watermark
    rw [recovered, Option.getD_some] at under
    exact ⟨before, Nat.lt_of_lt_of_le above under⟩
  have older {fact : Fact (Row F)} (member : fact ∈ image.past.flatMap Segment.pastFacts) {death : Nat}
      (ends : fact.death = some death) : fact.birth < death ∧
        death < s.sections.nextSequence.getD 0 := by
    rw [restarts.nextSequence]
    exact aged.past fact member death ends
  refine ⟨fun fact member death ends => ?_, fun fact member => ⟨?_, fun death ends => ?_⟩, ?_, recorded⟩
  · rcases List.mem_append.mp member with own | old
    · obtain ⟨id, held⟩ := List.mem_iff_getElem?.mp own
      exact (latest held ends).1
    · exact (older old ends).1
  · rcases List.mem_append.mp member with own | old
    · exact sound.born fact own
    · obtain ⟨segment, -, inside⟩ := List.mem_flatMap.mp old
      obtain ⟨row, -, rfl⟩ := List.mem_map.mp inside
      have both := older old rfl
      exact Nat.lt_of_lt_of_le (both.1.trans both.2) recorded
  · rcases List.mem_append.mp member with own | old
    · obtain ⟨id, held⟩ := List.mem_iff_getElem?.mp own
      exact (latest held ends).2
    · exact Nat.lt_of_lt_of_le (older old ends).2 recorded
  · exact fun fact member death ends => (older member ends).2

theorem Chronicled.fresh {segmentRows : Nat}
    (made : withSegmentRows schema orderingKey segmentRows = .ok s) :
    s.Chronicled [] [] := by
  obtain ⟨rfl, rfl, steady, sections, rows, -, -, -⟩ := @withSegmentRows_steady F _ _ .empty _ _ _ made
  have empty : s.latestFacts [] = [] :=
    List.length_eq_zero_iff.mp (steady.sound.latest_length.trans rows)
  have bare : (s.book [] []).facts = [] := by
    rw [book, empty]
    rfl
  refine ⟨?_, ?_, by simp, ?_⟩
  · simp [Book.Ordered, bare]
  · simp [Book.Dated, bare]
  · rw [sections]
    exact Nat.zero_le _

end Store

/-- The chronicle of a store is upheld by every operation that does not slip. -/
theorem upholds_chronicled {asks : Store F → Disk F → Op F → Prop}
    (firm : ∀ store disk op, asks store disk op → ¬ store.Slips op) :
    Upholds asks schema orderingKey Store.Aged Store.Chronicled where
  performs steady chronicled asked conduct steady' :=
    chronicled.conduct steady.sound conduct steady'.sound (firm _ _ _ asked)
  falls steady chronicled stored := chronicled.left steady stored
  adopted aged := ⟨by rw [Image.adopted_visible]; exact aged.ordered, aged.past⟩
  blank := ⟨nofun, by simp [Image.blank]⟩
  restarts on aged restarts := aged.restarts on restarts
  fresh made := Store.Chronicled.fresh made

end TallyDB
