import TallyDB.StorageLite.Facts

/-!
# What a knowledge snapshot shows

The facts of a store read through its slots, and the rows that an `AS OF` read makes of them.
-/

namespace TallyDB

open Crash Chronicle

variable {F : Type} [F64 F] {s : Store F} {w : World F} {disk : Disk F}
  {segments past : List (Segment F)} {cut : Nat}

/-! ### Masks -/

/-- A mask that keeps the rows of a predicate shows those rows. -/
theorem liveRows_mask {segment : Segment F} {p : Nat → Bool} {live : Option Bitmap}
    (masked : live = some ((List.range segment.numRows).map p) ∨
      live = none ∧ ((List.range segment.numRows).map p).all id = true) :
    (SegmentView.mk segment live).liveRows = ((List.range segment.numRows).filter p).map
      segment.row := by
  unfold SegmentView.liveRows SegmentView.isLive
  congr 1
  refine List.filter_congr fun row member => ?_
  have inside := List.mem_range.mp member
  rcases masked with rfl | ⟨rfl, all⟩
  · simp [Bitmap.validAt, Bitmap.get, List.getD_eq_getElem?_getD, inside]
  · have one := List.all_eq_true.mp all (p row) (List.mem_map_of_mem member)
    simpa [Bitmap.validAt] using one.symm

namespace KnowledgeSnapshot

theorem liveRows_latest (stamps : Tombstones) (segment : Segment F) :
    (maskLatest stamps cut segment).liveRows =
    ((List.range segment.numRows).filter fun row => segment.sequenceAt row ≤ cut &&
      !(stamps.lookup (segment.baseRowId + row)).any (· ≤ cut)).map segment.row := by
  refine liveRows_mask ?_
  split
  · next all => exact .inr ⟨rfl, all⟩
  · exact .inl rfl

theorem liveRows_history (segment : Segment F) :
    (maskHistory cut segment).liveRows = Chronicle.asOf cut segment.pastFacts := by
  have shown := @liveRows_mask F _ segment (fun row => segment.sequenceAt row ≤ cut &&
    decide (cut < segment.superseded.elim 0 (·.getD row 0))) _ (.inl rfl)
  refine shown.trans ?_
  unfold Chronicle.asOf Segment.pastFacts
  rw [List.filter_map, List.map_map]
  congr 1
  refine List.filter_congr fun row _ => ?_
  simp only [Function.comp_apply, Fact.shownAt, Option.any_some, ← not_lt, decide_not, Bool.not_not]

end KnowledgeSnapshot

namespace Store

theorem liveRows_known {all : List (Segment F)} (sound : s.Sound disk segments past)
    (pieces : Pieces s segments all) :
    all.flatMap (fun segment => (KnowledgeSnapshot.maskLatest s.tombstones cut segment).liveRows) =
      asOf cut (s.latestFacts segments) := by
  rw [sound.latest_pieces pieces]
  unfold asOf entriesOf
  rw [List.filter_map, List.map_map, List.filter_flatMap, List.map_flatMap]
  congr 1
  funext segment
  rw [KnowledgeSnapshot.liveRows_latest, List.filter_map, List.map_map]
  rfl

/-! ### Reading -/

/-- The history segments that a store's slots address. -/
def pastOn (store : Store F) (disk : Disk F) : List (Segment F) := store.history.filterMap (·.find disk)

theorem Sound.pastOn (sound : s.Sound disk segments past) : s.pastOn disk = past := by
  have finds {slots : List (HistorySlot F)} {entries : List (Segment F × Nat)}
      (yields : List.Forall₂ (fun slot entry => slot.Yields disk (s.historyName entry.2) entry.1)
        slots entries) :
      slots.filterMap (·.find disk) = entries.map (·.1) := by
    induction yields with
    | nil => rfl
    | cons yields _ ih =>
      rw [List.filterMap_cons]
      simp only [yields.find]
      exact congrArg _ ih
  rw [Store.pastOn, finds sound.history, List.zipIdx_map_fst]

def factsOn (store : Store F) (disk : Disk F) : List (Fact (Row F)) :=
  store.latestFacts (store.segmentsOn disk)

/-- The chronicle of a store, read through its slots. -/
def bookOn (store : Store F) (disk : Disk F) : Book (Row F) :=
  store.book (store.segmentsOn disk) (store.pastOn disk)

theorem Sound.bookOn (sound : s.Sound disk segments past) : s.bookOn disk = s.book segments past := by
  rw [Store.bookOn, sound.segmentsOn, sound.pastOn]

/-- The rows known at `cut`, as a store's slots yield them. -/
def knownAt (store : Store F) (disk : Disk F) (cut : Nat) : List (Row F) :=
  asOf cut (store.bookOn disk).facts

/-- The rows that `as_of` shows of a snapshot taken now, read with every call succeeding. -/
def asOfRows (store : Store F) (disk : Disk F) (cut : Nat) : Except StorageError (List (Row F)) := do
  let known ← store.knowledgeSnapshot
  let views ← (Program.complete backend .ok ((known.asOf cut : Io F Unit _) ()) ⟨disk, []⟩).1.1
  return views.flatMap SegmentView.liveRows

section Read

variable {σ : Type} {state : σ} {schema : Schema} {allow : World F → Call F → Outcome → Prop}
  {crash : World F → Prop}

omit [F64 F] in
theorem wp_pasts {post : Except StorageError (List (Segment F)) → σ → World F → Prop}
    {slots : List (HistorySlot F)}
    {entries : List (Segment F × Nat)} {file : Nat → Option ObjectName} (here : w.disk = disk)
    (yields : List.Forall₂ (fun slot entry => HistorySlot.Yields slot disk (file entry.2) entry.1)
      slots entries)
    (own : ∀ entry ∈ entries, entry.1.batch.schema = schema) (safe : ∀ w', Quiet w w' → crash w')
    (unread : ∀ w', Quiet w w' → ScanFails allow w → post (.error (.io (.backend .read))) state w')
    (done : ∀ w', Quiet w w' → post (.ok (entries.map (·.1))) state w') :
    Fallible.wp backend allow crash
      (Fallible.collect (HistorySlot.segment schema) slots) post state w := by
  induction yields generalizing w post with
  | nil => exact done w (.refl w)
  | @cons slot entry slots entries head tail ih =>
    simp only [Fallible.collect, Fallible.wp_bind, HistorySlot.segment, head.name]
    refine wp_fault (own entry List.mem_cons_self) (fun known same => by cases same)
      (here ▸ head.data) (safe w (.refl w)) unread ?_
    intro w₁ first
    refine ih (first.2.trans here) (fun entry member => own entry (List.mem_cons_of_mem _ member))
      (fun w' quiet => safe w' (first.trans quiet))
        (fun w' quiet fails => unread w' (first.trans quiet) (fails.earlier first.1))
      fun w' quiet => ?_
    exact done w' (first.trans quiet)

end Read

/-- The views of a knowledge snapshot: what is latest and what is history, each under its mask. -/
theorem Sound.asOfViews {handles : List (SegmentHandle F)} (sound : s.Sound disk segments past)
    (taken : s.snapshot = .ok handles) (cut : Nat) :
    ∃ all, Pieces s segments all ∧ (Program.complete backend .ok
      ((KnowledgeSnapshot.asOf ⟨s.schema, handles, s.history, s.tombstones⟩ cut : Io F Unit _) ())
      ⟨disk, []⟩).1.1 =
        .ok (all.map (KnowledgeSnapshot.maskLatest s.tombstones cut) ++
          past.map (KnowledgeSnapshot.maskHistory cut)) := by
  obtain ⟨all, pieces, shows⟩ := sound.snapshot taken
  have own : ∀ view ∈ all.map s.viewOf, view.segment.batch.schema = s.schema := by
    intro view member
    obtain ⟨segment, inside, rfl⟩ := List.mem_map.mp member
    exact (pieces.ok segment inside).schema
  have old : ∀ entry ∈ past.zipIdx, entry.1.batch.schema = s.schema := by
    intro entry member
    have inside : entry.1 ∈ past := by
      rw [← List.zipIdx_map_fst 0 past]
      exact List.mem_map_of_mem member
    exact (sound.pastOk _ inside).schema
  have reads : Fallible.wp backend Always (fun _ => True)
      (KnowledgeSnapshot.asOf ⟨s.schema, handles, s.history, s.tombstones⟩ cut)
      (fun result _ _ => result = .ok (all.map (KnowledgeSnapshot.maskLatest s.tombstones cut) ++
        past.map (KnowledgeSnapshot.maskHistory cut))) () ⟨disk, []⟩ := by
    unfold KnowledgeSnapshot.asOf
    rw [Fallible.collect_map fun view : SegmentView F =>
      KnowledgeSnapshot.maskLatest s.tombstones cut view.segment,
      Fallible.collect_map (KnowledgeSnapshot.maskHistory cut)]
    simp only [Fallible.wp_bind, Fallible.wp_pure]
    refine wp_views rfl shows own (fun _ _ => trivial)
      (fun _ _ fails => (sure_always.scan fails).elim) fun w₁ quiet => ?_
    refine wp_pasts quiet.2 sound.history old (fun _ _ => trivial)
      (fun _ _ fails => (sure_always.scan fails).elim) fun w₂ _ => ?_
    rw [List.zipIdx_map_fst, List.map_map]
    rfl
  exact ⟨all, pieces, completes reads⟩

/-- Masked so, they show what the chronicle knew. -/
theorem Sound.knownRows {all : List (Segment F)} (sound : s.Sound disk segments past)
    (pieces : Pieces s segments all) (cut : Nat) :
    (all.map (KnowledgeSnapshot.maskLatest s.tombstones cut) ++
      past.map (KnowledgeSnapshot.maskHistory cut)).flatMap SegmentView.liveRows =
      s.knownAt disk cut := by
  rw [knownAt, sound.bookOn, List.flatMap_append, List.flatMap_map, List.flatMap_map,
    liveRows_known sound pieces]
  change _ = asOf cut (s.latestFacts segments ++ past.flatMap Segment.pastFacts)
  rw [asOf_append]
  congr 1
  unfold asOf
  rw [List.filter_flatMap, List.map_flatMap]
  simp only [List.flatMap]
  congr 1
  exact List.map_congr_left fun segment _ => KnowledgeSnapshot.liveRows_history segment

/-- A snapshot that is taken shows, at every coordinate, what the chronicle knew. -/
theorem Sound.asOfRows {handles : List (SegmentHandle F)} (sound : s.Sound disk segments past)
    (taken : s.snapshot = .ok handles)
    (cut : Nat) : s.asOfRows disk cut = .ok (s.knownAt disk cut) := by
  obtain ⟨all, pieces, read⟩ := sound.asOfViews taken cut
  rw [Store.asOfRows, knowledgeSnapshot, taken]
  simp only [bind, Except.bind, pure, Except.pure, read]
  rw [sound.knownRows pieces]

theorem Sound.asOfRows_book (sound : s.Sound disk segments past) {rows : List (Row F)}
    (read : s.asOfRows disk cut = .ok rows) :
    rows = Chronicle.asOf cut (s.book segments past).facts := by
  cases taken : s.snapshot with
  | error e =>
    rw [Store.asOfRows, knowledgeSnapshot, taken] at read
    cases read
  | ok handles =>
    rw [sound.asOfRows taken, knownAt, sound.bookOn] at read
    exact (Except.ok.inj read).symm

theorem Sound.shown_facts (sound : s.Sound disk segments past) :
    s.shown disk = (s.latestFacts segments).map fun fact => (fact.value, !fact.alive) := by
  rw [sound.shown]
  have count := sound.rows_length
  refine List.ext_getElem (by
      rw [List.length_map, sound.latest_length]
      simp [Store.ledger, ledgerOf, ← count]) fun id bound _ => ?_
  simp [Store.ledger, ledgerOf, latestFacts, Fact.alive, killedAt]

/-- The rows that live are the latest facts that have not ended. -/
theorem Sound.liveRows_latest (sound : s.Sound disk segments past) : s.liveRows disk = living
      (s.latestFacts segments) := by
  rw [liveRows, sound.shown_facts]
  unfold Ledger.liveRows living
  rw [List.filter_map, List.map_map]
  congr 1
  refine List.filter_congr fun fact _ => ?_
  simp

theorem Sound.liveRows_living (sound : s.Sound disk segments past) : s.liveRows disk = living
      (s.bookOn disk).facts := by
  have ended : living (past.flatMap Segment.pastFacts) = [] := by
    unfold living
    rw [List.filter_eq_nil_iff.mpr, List.map_nil]
    intro fact member
    obtain ⟨segment, -, inside⟩ := List.mem_flatMap.mp member
    obtain ⟨row, -, rfl⟩ := List.mem_map.mp inside
    simp [Fact.alive]
  rw [sound.liveRows_latest, sound.bookOn]
  change _ = living (s.latestFacts segments ++ past.flatMap Segment.pastFacts)
  rw [living_append, ended, List.append_nil]

end Store

end TallyDB
