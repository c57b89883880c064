import TallyDB.StorageLite.PastFixed
import TallyDB.StorageLite.Touched
import TallyDB.Table.Query

/-!
# The calls of a refresh

A refresh reads its source through a plan and a walk, and replaces the rows of its own table
that match a predicate. Any call may fail: a read then changes nothing, and a replacement
has taken some of the old rows out and some of the new ones in.
-/

namespace TallyDB

open Crash Chronicle

variable {F : Type}

namespace Table

variable [F64Math F] (registry : Registry F)

/-! ### Programs -/

def materializeOver (schema : Schema) (predicate : Option (Predicate F))
    (mayMatch : SegmentHandle F → Bool) :
    List (SegmentHandle F) → TableM F (List (SegmentView F))
  | [] => pure []
  | handle :: rest =>
    if handle.liveRowCount = 0 then materializeOver schema predicate mayMatch rest
    else if !mayMatch handle then materializeOver schema predicate mayMatch rest
    else do
      let view ← Fallible.mapError (fun e => EngineError.query (.storage e)) (handle.view schema)
      let view ← Fallible.ofExcept ((restrict schema registry predicate view).mapError .query)
      let views ← materializeOver schema predicate mayMatch rest
      return if 0 < view.liveRowCount then view :: views else views

def takeHandles (asOf : Option Nat) : TableM F (List (SegmentHandle F)) := storage do
  let store ← Fallible.read
  match asOf with
  | some cut => do
    let known ← Fallible.ofExcept store.knowledgeSnapshot
    let views ← known.asOf cut
    return views.map fun view => .resident view.segment view.live
  | none => Fallible.ofExcept store.snapshot

def runPlan (plan : Plan F) : TableM F (QueryOutput F) := do
  let store ← Fallible.read
  let handles ← takeHandles plan.asOf
  if plan.join.isSome then
    Fallible.fail (.query
      (.unsupported "joins execute through the multi-table doorway (Database), not a single table"))
  else do
    let views ← materializeOver registry store.schema plan.predicate
      (fun handle => plan.predicate.all (canMatch store.schema handle)) handles
    Fallible.ofExcept ((finish store.schema registry (some store.orderingKey) plan views).mapError
      .query)

omit [F64Math F] in
/-- The ordering keys of the rows born or killed at or after a coordinate. -/
def touchedOrderingKeys (since : Nat) : TableM F (List Int64) := storage do
  let store ← Fallible.read
  let known ← Fallible.ofExcept store.knowledgeSnapshot
  known.touchedOrderingKeys since

/-- Supersedes the live rows that match by the rows of `replacements`. Without victims the rows are
appended one by one; without rows the victims are killed. -/
def replaceMatching (predicate : Option (Predicate F)) (replacements : QueryOutput F) :
    TableM F Unit := do
  let hits ← matches_ registry predicate
  let victims := hits.map Match.id
  let corrected := replacements.rows
  if corrected.isEmpty then
    Fallible.when (!victims.isEmpty) (storage do
      let _ ← Store.tombstone victims
      return ())
  else if victims.isEmpty then
    Fallible.each (fun cells => storage do
      let _ ← Store.append cells
      return ()) corrected
  else storage do
    let _ ← Store.supersede corrected victims
    return ()

end Table

/-! ### Reads -/

section Reads

variable [F64Math F] {allow : World F → Call F → Outcome → Prop} {crash : World F → Prop}
  {registry : Registry F} {s : Store F} {w : World F}
variable {segments past : List (Segment F)}

/-- The views of a knowledge snapshot, where any read may fail. -/
theorem Store.Sound.wp_asOf {σ : Type} {state : σ}
    {post : Except StorageError (List (SegmentView F)) → σ → World F → Prop}
    {handles : List (SegmentHandle F)} {all : List (Segment F)} {cut : Nat}
    (sound : s.Sound w.disk segments past) (pieces : Pieces s segments all)
    (shows : List.Forall₂ (fun handle view => handle.Shows w.disk view) handles (all.map s.viewOf))
    (safe : ∀ w', Quiet w w' → crash w')
    (unread : ∀ w', Quiet w w' → ScanFails allow w → post (.error (.io (.backend .read))) state w')
    (done : ∀ w', Quiet w w' →
      post (.ok (all.map (KnowledgeSnapshot.maskLatest s.tombstones cut) ++
      past.map (KnowledgeSnapshot.maskHistory cut))) state w') :
    Fallible.wp backend allow crash
      (KnowledgeSnapshot.asOf ⟨s.schema, handles, s.history, s.tombstones⟩ cut) post state w := by
  have own : ∀ view ∈ all.map s.viewOf, view.segment.batch.schema = s.schema := by
    intro view member
    obtain ⟨segment, inside, rfl⟩ := List.mem_map.mp member
    exact (pieces.ok segment inside).schema
  have old : ∀ entry ∈ past.zipIdx, entry.1.batch.schema = s.schema := by
    intro entry member
    have inside : entry.1 ∈ past := by
      rw [← List.zipIdx_map_fst 0 past]
      exact List.mem_map_of_mem member
    exact (sound.pastOk _ inside).schema
  unfold KnowledgeSnapshot.asOf
  rw [Fallible.collect_map fun view : SegmentView F =>
    KnowledgeSnapshot.maskLatest s.tombstones cut view.segment,
    Fallible.collect_map (KnowledgeSnapshot.maskHistory cut)]
  simp only [Fallible.wp_bind, Fallible.wp_pure]
  refine wp_views rfl shows own safe unread fun w₁ first => ?_
  refine Store.wp_pasts first.2 sound.history old (fun w' quiet => safe w' (first.trans quiet))
    (fun w' quiet fails => unread w' (first.trans quiet) (fails.earlier first.1)) fun w' quiet => ?_
  have ends := done w' (first.trans quiet)
  rw [List.zipIdx_map_fst, List.map_map]
  exact ends

namespace Table

theorem wp_materializeOver {schema : Schema} {predicate : Option (Predicate F)}
    {mayMatch : SegmentHandle F → Bool} {handles : List (SegmentHandle F)}
    {all : List (SegmentView F)} {disk : Disk F}
    {post : Except EngineError (List (SegmentView F)) → Store F → World F → Prop} (here : w.disk = disk)
    (shows : List.Forall₂ (fun handle view => handle.Shows disk view) handles all)
    (own : ∀ view ∈ all, view.segment.batch.schema = schema)
    (safe : ∀ w', Quiet w w' → crash w') (refused : ∀ e w', Quiet w w' → post (.error e) s w')
    (done : ∀ views w', Quiet w w' →
      TallyDB.materialize schema registry (disk.reader schema) predicate mayMatch handles =
      .ok views → post (.ok views) s w') :
    Fallible.wp backend allow crash (materializeOver registry schema predicate mayMatch handles) post s w := by
  induction shows generalizing w post with
  | nil => exact done [] w (.refl w) rfl
  | @cons handle view handles all head tail ih =>
    have later := fun other member => own other (List.mem_cons_of_mem _ member)
    have fetched := head.fetch (own view List.mem_cons_self)
    rw [materializeOver]
    split
    · next dead =>
      refine ih here later safe refused fun views w' quiet read => done views w' quiet ?_
      rw [TallyDB.materialize, if_pos dead]
      exact read
    next alive =>
    split
    · next ruled =>
      refine ih here later safe refused fun views w' quiet read => done views w' quiet ?_
      rw [TallyDB.materialize, if_neg alive, if_pos ruled]
      exact read
    next open_ =>
    rw [← here] at head
    refine Fallible.wp_bind.mpr
      (Fallible.wp_mapError.mpr (head.wp_view (own view List.mem_cons_self) (safe w (.refl w))
      (fun w' quiet _ => refused _ w' quiet) fun w₁ first => ?_))
    refine Fallible.wp_bind.mpr (Fallible.wp_ofExcept.mpr ?_)
    cases tested : restrict schema registry predicate view with
    | error e => exact refused _ w₁ first
    | ok restricted =>
      refine Fallible.wp_bind.mpr
        (ih (first.2.trans here) later (fun w' quiet => safe w' (first.trans quiet))
        (fun e w' quiet => refused e w' (first.trans quiet)) fun views w' quiet read => ?_)
      refine done _ w' (first.trans quiet) ?_
      rw [TallyDB.materialize, if_neg alive, if_neg open_, fetched]
      simp only [bind, Except.bind, tested, read]

/-- The handles that a plan takes are those of the state, and each shows a view of it. -/
theorem wp_takeHandles {asOf : Option Nat}
    {post : Except EngineError (List (SegmentHandle F)) → Store F → World F → Prop}
    (sound : s.Sound w.disk segments past) (safe : ∀ w', Quiet w w' → crash w')
    (refused : ∀ e w', Quiet w w' → post (.error e) s w')
    (done : ∀ handles all w', Quiet w w' → handlesFor s w.disk asOf = .ok handles →
      List.Forall₂ (fun handle view => handle.Shows w.disk view) handles all →
      (∀ view ∈ all, view.segment.batch.schema = s.schema) →
      post (.ok handles) s w') : Fallible.wp backend allow crash (takeHandles asOf) post s w := by
  simp only [takeHandles, storage, Fallible.wp_bind, Fallible.wp_read, Fallible.wp_mapError]
  cases taken : s.snapshot with
  | error e =>
    cases asOf with
    | none =>
      rw [Fallible.wp_ofExcept]
      exact refused _ w (.refl w)
    | some cut =>
      rw [Fallible.wp_bind, Fallible.wp_ofExcept, Store.knowledgeSnapshot, taken]
      exact refused _ w (.refl w)
  | ok handles =>
    obtain ⟨all, pieces, shows⟩ := sound.snapshot taken
    have own : ∀ view ∈ all.map s.viewOf, view.segment.batch.schema = s.schema := by
      intro view member
      obtain ⟨segment, inside, rfl⟩ := List.mem_map.mp member
      exact (pieces.ok segment inside).schema
    cases asOf with
    | none =>
      rw [Fallible.wp_ofExcept]
      exact done handles _ w (.refl w) taken shows own
    | some cut =>
      have known : s.knowledgeSnapshot = .ok ⟨s.schema, handles, s.history, s.tombstones⟩ := by
        rw [Store.knowledgeSnapshot, taken]
        rfl
      have reads : (Program.complete backend .ok
          ((KnowledgeSnapshot.asOf ⟨s.schema, handles, s.history, s.tombstones⟩ cut : Io F Unit _)
          ()) ⟨w.disk, []⟩).1.1 =
            .ok (all.map (KnowledgeSnapshot.maskLatest s.tombstones cut) ++
              past.map (KnowledgeSnapshot.maskHistory cut)) := by
        have ends : Fallible.wp backend Always (fun _ => True)
          (KnowledgeSnapshot.asOf ⟨s.schema, handles, s.history, s.tombstones⟩ cut)
            (fun result _ _ =>
              result = .ok (all.map (KnowledgeSnapshot.maskLatest s.tombstones cut) ++
              past.map (KnowledgeSnapshot.maskHistory cut)))
            () ⟨w.disk, []⟩ :=
          Store.Sound.wp_asOf sound pieces shows (fun _ _ => trivial)
            (fun _ _ fails => (sure_always.scan fails).elim) fun _ _ => rfl
        exact completes ends
      have whole : handlesFor s w.disk (some cut) =
        .ok ((all.map (KnowledgeSnapshot.maskLatest s.tombstones cut) ++
          past.map (KnowledgeSnapshot.maskHistory cut)).map fun view =>
          .resident view.segment view.live) := by
        rw [handlesFor, known]
        simp only [bind, Except.bind, reads]
      rw [Fallible.wp_bind, Fallible.wp_ofExcept, known]
      simp only [Fallible.wp_bind]
      refine sound.wp_asOf pieces shows safe (fun w' quiet _ => refused _ w' quiet) fun w' quiet => ?_
      refine done _ _ w' quiet whole
        (List.forall₂_map_left_iff.mpr (List.forall₂_same.mpr fun view _ => ?_)) fun view member => ?_
      · exact ⟨⟨none, rfl, rfl, .inl rfl⟩, rfl⟩
      · rcases List.mem_append.mp member with recent | old
        · obtain ⟨segment, inside, rfl⟩ := List.mem_map.mp recent
          exact (pieces.ok segment inside).schema
        · obtain ⟨segment, inside, rfl⟩ := List.mem_map.mp old
          exact (sound.pastOk segment inside).schema

/-- A plan reads and changes nothing. What it answers is what the state answers. -/
theorem wp_runPlan {plan : Plan F}
    {post : Except EngineError (QueryOutput F) → Store F → World F → Prop}
    (sound : s.Sound w.disk segments past)
    (safe : ∀ w', Quiet w w' → crash w') (refused : ∀ e w', Quiet w w' → post (.error e) s w')
    (done : ∀ output w', Quiet w w' → executePlan registry s w.disk plan = .ok output →
      post (.ok output) s w') :
    Fallible.wp backend allow crash (runPlan registry plan) post s w := by
  simp only [runPlan, Fallible.wp_bind, Fallible.wp_read]
  refine wp_takeHandles sound safe refused fun handles all w₁ first taken shows own => ?_
  simp only
  split
  · exact refused _ w₁ first
  next single =>
  refine Fallible.wp_bind.mpr
    (wp_materializeOver first.2 shows own (fun w' quiet => safe w' (first.trans quiet))
    (fun e w' quiet => refused e w' (first.trans quiet)) fun views w' quiet read => ?_)
  refine Fallible.wp_ofExcept.mpr ?_
  cases finished : finish s.schema registry (some s.orderingKey) plan views with
  | error e => exact refused _ w' (first.trans quiet)
  | ok output =>
    refine done output w' (first.trans quiet) ?_
    unfold executePlan executeWithOrderingKey executeSingle executeOver
    rw [taken]
    simp only [Except.mapError, bind, Except.bind, if_neg single, read, finished]

/-- A walk changes nothing. It reports the keys of the touched facts. -/
theorem wp_touchedOrderingKeys {since : Nat}
    {post : Except EngineError (List Int64) → Store F → World F → Prop}
    (sound : s.Sound w.disk segments past)
    (safe : ∀ w', Quiet w w' → crash w') (refused : ∀ e w', Quiet w w' → post (.error e) s w')
    (done : ∀ keys w', Quiet w w' →
      (∀ key, key ∈ keys ↔ ∃ fact ∈ (s.book segments past).facts, fact.touched since = true ∧
      orderingValue s.orderingKey fact.value = key) →
      post (.ok keys) s w') : Fallible.wp backend allow crash (touchedOrderingKeys since) post s w := by
  simp only [touchedOrderingKeys, storage, Fallible.wp_bind, Fallible.wp_read, Fallible.wp_mapError,
    Fallible.wp_ofExcept]
  cases taken : s.snapshot with
  | error e =>
    rw [Store.knowledgeSnapshot, taken]
    exact refused _ w (.refl w)
  | ok handles =>
    obtain ⟨all, pieces, shows⟩ := sound.snapshot taken
    have known : s.knowledgeSnapshot = .ok ⟨s.schema, handles, s.history, s.tombstones⟩ := by
      rw [Store.knowledgeSnapshot, taken]
      rfl
    rw [known]
    refine Fallible.wp_bind.mpr
      (sound.wp_touchedWalk pieces shows safe (fun w' quiet _ => refused _ w' quiet) fun w' quiet => ?_)
    refine done _ w' quiet fun key => ?_
    have keys : (s.touchedPlaces since all past).map KnowledgeSnapshot.placeKey =
        ((s.touchedPlaces since all past).map fun place => place.1.row place.2).map
          (orderingValue s.orderingKey) := by
      rw [List.map_map]
      refine List.map_congr_left fun place member => ?_
      obtain ⟨mapped, axis⟩ := sound.places_mapped pieces member
      exact KnowledgeSnapshot.placeKey_row mapped axis sound.keyed
    rw [keys, List.mem_map]
    constructor
    · rintro ⟨row, member, rfl⟩
      obtain ⟨fact, inside, touch, rfl⟩ := (sound.mem_touchedPlaces pieces row).mp member
      exact ⟨fact, inside, touch, rfl⟩
    · rintro ⟨fact, inside, touch, rfl⟩
      exact ⟨fact.value, (sound.mem_touchedPlaces pieces _).mpr ⟨fact, inside, touch, rfl⟩, rfl⟩

end Table

end Reads

/-! ### Replacements -/

/-- Some of the victims went and some of the new rows came; all of them, if `whole`. -/
structure Swaps (old victims rows new : List (Row F)) (whole : Prop) : Prop where
  split : ∃ kept gone born, old.Perm (kept ++ gone) ∧ new.Perm (kept ++ born) ∧
    (∀ row ∈ gone, row ∈ victims) ∧ (∀ row ∈ born, row ∈ rows) ∧
    (whole → gone.Perm victims ∧ born.Perm rows)

namespace Swaps

variable {old victims rows new : List (Row F)} {whole : Prop}

theorem refl (old victims rows : List (Row F)) (busy : whole → victims = [] ∧ rows = []) :
    Swaps old victims rows old whole := by
  refine ⟨old, [], [], by simp, by simp, by simp, by simp, fun all => ?_⟩
  obtain ⟨rfl, rfl⟩ := busy all
  exact ⟨.refl _, .refl _⟩

theorem imp {whole' : Prop} (swaps : Swaps old victims rows new whole) (fewer : whole' → whole) :
    Swaps old victims rows new whole' := by
  obtain ⟨kept, gone, born, left, came, among, fresh, both⟩ := swaps.split
  exact ⟨kept, gone, born, left, came, among, fresh, fun all => both (fewer all)⟩

theorem spares (swaps : Swaps old victims rows new whole) {p : Row F → Bool}
    (outside : ∀ row ∈ victims, p row = false)
    (aside : ∀ row ∈ rows, p row = false) : (new.filter p).Perm (old.filter p) := by
  obtain ⟨kept, gone, born, left, came, among, fresh, -⟩ := swaps.split
  have bare {part : List (Row F)} (none : ∀ row ∈ part, p row = false) : part.filter p = [] :=
    List.filter_eq_nil_iff.mpr fun row member => by simp [none row member]
  refine (came.filter p).trans (.trans (.of_eq ?_) (left.filter p).symm)
  rw [List.filter_append, List.filter_append, bare fun row member => outside row (among row member),
    bare fun row member => aside row (fresh row member)]

/-- Without victims nothing goes. -/
theorem grows (swaps : Swaps old [] rows new whole) : ∃ born, new.Perm (old ++ born) ∧
    (∀ row ∈ born, row ∈ rows) ∧ (whole → born.Perm rows) := by
  obtain ⟨kept, gone, born, left, came, among, fresh, both⟩ := swaps.split
  obtain rfl : gone = [] := List.eq_nil_iff_forall_not_mem.mpr fun row member => by
    cases among row member
  rw [List.append_nil] at left
  exact ⟨born, came.trans (left.symm.append_right _), fresh, fun all => (both all).2⟩

theorem of_grown {born : List (Row F)} (bare : victims = []) (grown : new.Perm (old ++ born))
    (fresh : ∀ row ∈ born, row ∈ rows)
    (all : whole → born.Perm rows) : Swaps old victims rows new whole :=
  ⟨old, [], born, by simp, grown, by simp, fresh, fun ended => ⟨by rw [bare], all ended⟩⟩

/-- A whole swap leaves what was not a victim, and the new rows. -/
theorem complete (swaps : Swaps old victims rows new whole) (all : whole) {p : Row F → Bool}
    (victims_ : victims = old.filter p) :
    new.Perm (old.filter (fun row => !p row) ++ rows) := by
  obtain ⟨kept, gone, born, left, came, -, -, both⟩ := swaps.split
  obtain ⟨went, arrived⟩ := both all
  have parts : (kept ++ gone).Perm (old.filter (fun row => !p row) ++ gone) := by
    refine left.symm.trans ((List.filter_append_perm p old).symm.trans (List.perm_append_comm.trans ?_))
    exact (went.trans (.of_eq victims_)).symm.append_left _
  exact came.trans (((List.perm_append_right_iff _).mp parts).append arrived)

end Swaps

section Swapping

variable [F64 F] {s s' : Store F} {disk disk' : Disk F}
  {segments segments' past past' : List (Segment F)} {op : Op F}
variable {result : Except StorageError Nat}

/-- The rows that an operation takes out and the rows that it brings in. -/
theorem Store.Conduct.swaps (conduct : s.Conduct segments past op result s' segments' past')
    (sound : s.Sound disk segments past)
    (sound' : s'.Sound disk' segments' past') :
    Swaps (s.liveRows disk) ((named (s.killsOf op) (s.latestFacts segments)).map (·.value))
      (Store.rowsOf op) (s'.liveRows disk') (∃ n, result = .ok n) := by
  rw [sound.liveRows_living, sound'.liveRows_living, sound.bookOn, sound'.bookOn]
  have still (same : (s.book segments past).Still (s'.book segments' past'))
    (idle : (∃ n, result = .ok n) → s.killsOf op = [] ∧ Store.rowsOf op = []) :
      Swaps (living (s.book segments past).facts)
        ((named (s.killsOf op) (s.latestFacts segments)).map (·.value)) (Store.rowsOf op)
        (living (s'.book segments' past').facts) (∃ n, result = .ok n) := by
    refine ⟨living (s.book segments past).facts, [], [], by simp, ?_, by simp, by simp, fun all => ?_⟩
    · rw [List.append_nil]
      exact living_perm same.facts.symm
    · obtain ⟨none, bare⟩ := idle all
      rw [none, bare, named_nil]
      exact ⟨.refl _, .refl _⟩
  cases conduct with
  | still _ _ _ _ settles answer =>
    refine still (by rw [settles.book]; exact .refl _) ?_
    rintro ⟨n, ok⟩
    rcases answer with ⟨e, error⟩ | ⟨idle, -⟩
    · rw [ok] at error
      cases error
    · cases op with
      | append row => exact idle.elim
      | tombstone ids => exact ⟨idle, rfl⟩
      | supersede rows victims => exact ⟨idle.2, idle.1⟩
      | flush => exact ⟨rfl, rfl⟩
      | compact => exact idle.elim
  | append row valid _ _ _ settles answer =>
    obtain ⟨kept, left, came⟩ := (sound.turns_appended valid settles).toTurns.living
    exact ⟨kept, _, [row], left, came, fun _ member => member, fun _ member => member,
      fun _ => ⟨.refl _, .refl _⟩⟩
  | tombstone ids first _ newly settles mortal =>
    obtain ⟨kept, left, came⟩ :=
      (sound.turns_killed (fun id member => (mem_newlyDead.mp member).2) settles).toTurns.living
    exact ⟨kept, _, [], left, came, fun _ member => member, by simp, fun _ => ⟨.refl _, .refl _⟩⟩
  | partial_ done rest victims e first taken _ segments₁ _ settles takes after =>
    obtain ⟨kept, left, came⟩ := (sound.turns_partial settles takes after).1.living
    rw [named_nil, List.map_nil] at left
    exact ⟨kept, [], done, left, came, by simp, fun row member => List.mem_append_left _ member, by
        simp⟩
  | supersede rows victims _ first taken committed _ segments₁ segments₂ _ busy settles takes after
      inside mortal finally_ answer =>
    obtain ⟨kept, left, came⟩ :=
      (sound.turns_superseded (fun id member => (mem_newlyDead.mp member).2) inside settles takes
        after finally_).1.living
    exact ⟨kept, _, rows, left, came, fun _ member => member, fun _ member => member,
      fun _ => ⟨.refl _, .refl _⟩⟩
  | compact all merged writer _ pieces merges logs answer =>
    have sound₁ : (s.compacted merged).Sound disk' merged.segments (past ++ merged.history) :=
      sound'.withWal s.wal
    exact still (sound.book_compacted pieces merges sound₁) fun _ => ⟨rfl, rfl⟩

end Swapping

section Replacing

variable [F64Math F] [LawfulRounding F] {allow : World F → Call F → Outcome → Prop}
  {crash : World F → Prop} {registry : Registry F} {s : Store F}
variable {w : World F} {segments past : List (Segment F)} {predicate : Option (Predicate F)}
  {hits : List (Match F)}

omit [LawfulRounding F] in
theorem SegmentView.hits_cells (view : SegmentView F) : view.hits.map Match.cells = view.liveRows := by
  rw [SegmentView.hits, List.map_map]
  rfl

/-- The rows that are hit are the live rows that pass. -/
theorem forEachMatch_cells {schema : Schema} {views : List (SegmentView F)}
    (stored : ∀ view ∈ views, view.segment.Stored schema)
    (kernels : ∀ test ∈ predicate, test.usesRegistered = false)
    (matched : forEachMatch schema registry predicate views = .ok hits) :
    hits.map Match.cells = keep schema predicate (views.flatMap SegmentView.liveRows) := by
  induction views generalizing hits with
  | nil =>
    obtain rfl := Except.ok.inj matched
    cases predicate <;> rfl
  | cons view views ih =>
    obtain ⟨found, listed, rfl⟩ := except_map_ok matched
    rw [List.mapM_cons] at listed
    obtain ⟨here, first, listed⟩ := except_bind_ok listed
    obtain ⟨later, others, listed⟩ := except_bind_ok listed
    obtain rfl := Except.ok.inj listed
    obtain ⟨restricted, tested, same, -⟩ := matchedRows_restrict first
    have rest := ih (fun other member => stored other (List.mem_cons_of_mem _ member))
      (show forEachMatch schema registry predicate views = .ok later.flatten by
          rw [forEachMatch, others]
          rfl)
    have kept := (restrict_rows (stored view List.mem_cons_self) kernels tested).2
    rw [List.flatten_cons, List.map_append, rest, List.flatMap_cons, keep_append, ← same,
      SegmentView.hits_cells, kept]

theorem Store.Sound.matched_cells {disk : Disk F} (sound : s.Sound disk segments past)
    (kernels : ∀ test ∈ predicate, test.usesRegistered = false)
    (matched : Table.matchedOn registry s disk predicate = .ok hits) :
    hits.map Match.cells = keep s.schema predicate (s.liveRows disk) := by
  unfold Table.matchedOn at matched
  obtain ⟨handles, taken, matched⟩ := except_bind_ok matched
  obtain ⟨views, read, matched⟩ := except_bind_ok matched
  obtain ⟨all, pieces, shows⟩ := sound.snapshot (except_mapError_ok taken)
  have own : ∀ view ∈ all.map s.viewOf, view.segment.batch.schema = s.schema ∧
      view.segment.Stored s.schema := by
    intro view member
    obtain ⟨segment, inside, rfl⟩ := List.mem_map.mp member
    exact ⟨(pieces.ok segment inside).schema, (pieces.ok segment inside).stored⟩
  have fetched := Table.fetch_all shows fun view member => (own view member).1
  obtain rfl := Except.ok.inj ((except_mapError_ok read).symm.trans fetched)
  rw [forEachMatch_cells (fun view member => (own view member).2) kernels
    (except_mapError_ok matched), liveRows_pieces pieces, ← sound.shown]
  rfl

theorem Store.Sound.named_hits {disk : Disk F} (sound : s.Sound disk segments past)
    (kernels : ∀ test ∈ predicate, test.usesRegistered = false)
    (matched : Table.matchedOn registry s disk predicate = .ok hits) (own : s.Hits segments hits) :
    (named (s.newlyDead (hits.map Match.id)) (s.latestFacts segments)).map
    (·.value) = keep s.schema predicate (s.liveRows disk) := by
  rw [own.newlyDead, own.facts, sound.matched_cells kernels matched]

/-- A replacement, whatever fails, has swapped some of the rows that match for some of the new ones.
-/
theorem Table.wp_replaceMatching {replacements : QueryOutput F}
    {post : Except EngineError Unit → Store F → World F → Prop}
    (steady : s.Steady w.disk segments past) (kernels : ∀ test ∈ predicate, test.usesRegistered = false)
    (safe : ∀ s' w' segments' past', s'.Steady w'.disk segments' past' → s.Kin s' →
      Swaps (s.liveRows w.disk) (keep s.schema predicate (s.liveRows w.disk)) replacements.rows
      (s'.liveRows w'.disk) False → crash w')
    (ends : ∀ result s' w' segments' past', s'.Steady w'.disk segments' past' → s.Kin s' →
      Swaps (s.liveRows w.disk) (keep s.schema predicate (s.liveRows w.disk)) replacements.rows
      (s'.liveRows w'.disk) (∃ u, result = .ok u) →
      post result s' w') : Fallible.wp backend allow crash
      (replaceMatching registry predicate replacements) post s w := by
  have same {w' : World F} (quiet : Quiet w w') : s.liveRows w'.disk = s.liveRows w.disk := by
    rw [quiet.2]
  have weak {old victims rows new : List (Row F)} {whole : Prop}
      (swaps : Swaps old victims rows new whole) : Swaps old victims rows new False := by
    obtain ⟨kept, gone, born, left, came, among, fresh, -⟩ := swaps.split
    exact ⟨kept, gone, born, left, came, among, fresh, False.elim⟩
  have kin : s.Kin s := ⟨rfl, rfl, rfl, rfl⟩
  simp only [replaceMatching, Fallible.wp_bind]
  refine wp_matches steady (fun w' quiet => ?_) (fun e w' quiet _ => ?_)
    fun hits w' quiet matched (selects : Selects "" _ _ _ _ _) => ?_
  · refine safe s w' segments past (quiet.2 ▸ steady) kin ?_
    rw [same quiet]
    exact .refl _ _ _ False.elim
  · refine ends _ s w' segments past (quiet.2 ▸ steady) kin ?_
    rw [same quiet]
    exact .refl _ _ _ (by simp)
  have own : s.Hits segments hits := by
    have hit := selects.own
    rwa [steady.sound.segmentsOn] at hit
  have steady₁ : s.Steady w'.disk segments past := quiet.2 ▸ steady
  have victims := steady.sound.named_hits kernels matched own
  have none_ (bare : hits = []) : keep s.schema predicate (s.liveRows w.disk) = [] := by
    rw [← steady.sound.matched_cells kernels matched, bare]
    rfl
  -- What one operation of the store on the hits does, as a step of the replacement.
  have performs (op : Op F) (kills : s.killsOf op = s.newlyDead (hits.map Match.id))
    (rows : Store.rowsOf op = replacements.rows) :
      Fallible.wp backend allow crash (storage (do
        let _ ← op.perform
        return ())) post s w' := by
    refine Fallible.wp_mapError.mpr (Fallible.wp_bind.mpr (Store.wp_conduct steady₁ ?_ ?_))
    · intro result s' w'' segments' past' conduct steady'
      have swaps := conduct.swaps steady₁.sound steady'.sound
      rw [kills, victims, rows, same quiet] at swaps
      exact safe s' w'' segments' past' steady' conduct.kin (weak swaps)
    · intro result s' w'' segments' past' conduct steady'
      have swaps := conduct.swaps steady₁.sound steady'.sound
      rw [kills, victims, rows, same quiet] at swaps
      cases result with
      | error e =>
        refine ends _ s' w'' segments' past' steady' conduct.kin (swaps.imp ?_)
        rintro ⟨n, ok⟩
        cases ok
      | ok n => exact ends _ s' w'' segments' past' steady' conduct.kin (swaps.imp fun _ => ⟨n, rfl⟩)
  simp only
  split
  · next bare =>
    have empty : replacements.rows = [] := List.isEmpty_iff.mp bare
    rw [Fallible.wp_when]
    refine ⟨fun _ => performs (.tombstone (hits.map Match.id)) rfl empty.symm, fun none => ?_⟩
    refine ends _ s w' segments past steady₁ kin ?_
    rw [same quiet]
    refine .refl _ _ _ fun _ => ⟨none_ ?_, empty⟩
    simpa using none
  next filled =>
  split
  · next none =>
    have bare : hits = [] := by simpa using none
    -- The rows appended so far are a front of the new ones.
    refine Fallible.wp_each (fun rest s' w'' => ∃ done segments' past',
      done ++ rest = replacements.rows ∧ s'.Steady w''.disk segments' past' ∧ s.Kin s' ∧
      (s'.liveRows w''.disk).Perm (s.liveRows w.disk ++ done)) ⟨[], segments, past, rfl, steady₁,
      kin, by rw [same quiet]; simp⟩ ?_ ?_
    · rintro cells rest s' w'' ⟨done, segments', past', split, steady', kin', grown⟩
      have front (born : List (Row F)) (fresh : ∀ row ∈ born, row ∈ [cells]) : ∀ row ∈ done ++ born,
          row ∈ replacements.rows := by
        intro row member
        rw [← split]
        rcases List.mem_append.mp member with early | late
        · exact List.mem_append_left _ early
        · obtain rfl := List.mem_singleton.mp (fresh row late)
          exact List.mem_append_right _ List.mem_cons_self
      have onward {op : Op F} {result : Except StorageError Nat} {s₂ : Store F} {w₂ : World F}
        {segments₂ past₂ : List (Segment F)} (same : op = .append cells)
          (conduct : s'.Conduct segments' past' op result s₂ segments₂ past₂)
            (steady₂ : s₂.Steady w₂.disk segments₂ past₂) :
          ∃ born, (s₂.liveRows w₂.disk).Perm (s.liveRows w.disk ++ (done ++ born)) ∧
            (∀ row ∈ born, row ∈ [cells]) ∧
            ((∃ n, result = .ok n) → born.Perm [cells]) := by
        subst same
        have swaps := conduct.swaps steady'.sound steady₂.sound
        rw [show s'.killsOf (.append cells) = [] from rfl, named_nil, List.map_nil] at swaps
        obtain ⟨born, more, fresh, all⟩ := swaps.grows
        exact ⟨born, (more.trans (grown.append_right _)).trans (.of_eq (List.append_assoc _ _ _)),
          fresh, all⟩
      refine Fallible.wp_mapError.mpr
        (Fallible.wp_bind.mpr
        (@Store.wp_conduct F _ _ _ s' w'' segments' past' (.append cells) _ steady' ?_ ?_))
      · intro result s₂ w₂ segments₂ past₂ conduct steady₂
        obtain ⟨born, more, fresh, -⟩ := onward rfl conduct steady₂
        exact safe s₂ w₂ segments₂ past₂ steady₂ (kin'.trans conduct.kin)
          (.of_grown (none_ bare) more (front born fresh) False.elim)
      · intro result s₂ w₂ segments₂ past₂ conduct steady₂
        obtain ⟨born, more, fresh, all⟩ := onward rfl conduct steady₂
        cases result with
        | error e =>
          exact ends _ s₂ w₂ segments₂ past₂ steady₂ (kin'.trans conduct.kin)
            (.of_grown (none_ bare) more (front born fresh) (by simp))
        | ok n =>
          refine ⟨done ++ [cells], segments₂, past₂, by rw [List.append_assoc]; exact split,
            steady₂, kin'.trans conduct.kin, more.trans ?_⟩
          exact ((all ⟨n, rfl⟩).append_left _).append_left _
    · rintro s' w'' ⟨done, segments', past', split, steady', kin', grown⟩
      rw [List.append_nil] at split
      subst split
      exact ends _ s' w'' segments' past' steady' kin'
        (.of_grown (none_ bare) grown (fun _ member => member) fun _ => .refl _)
  · exact performs (.supersede replacements.rows (hits.map Match.id)) rfl rfl

end Replacing

/-- In every state that a run reaches, a replacement that ends has taken out some of the rows that
match and brought in some of the new ones, whatever failed; where it returns, all of them. Every
other row stays. -/
theorem Reached.replaced_swaps [F64Math F] [LawfulRounding F] {rules : Rules F} {schema : Schema}
    {orderingKey : Nat} {options : StoreOptions → Prop}
    {permits : World F → Call F → Outcome → Prop} {registry : Registry F} {s s' : Store F}
    {disk : Disk F} {predicate : Option (Predicate F)}
    {replacements : QueryOutput F} {w' : World F} {plan rest : List Outcome}
    {result : Except EngineError Unit}
    (reached : Reached rules schema orderingKey options permits (.up s disk))
    (kernels : ∀ test ∈ predicate, test.usesRegistered = false)
    (ran : Program.run backend (Table.replaceMatching registry predicate replacements s) ⟨disk, []⟩
      plan = .returned (result, s') w' rest) :
    Swaps (s.liveRows disk) (keep s.schema predicate (s.liveRows disk)) replacements.rows
      (s'.liveRows w'.disk) (∃ u, result = .ok u) := by
  obtain ⟨-, -, segments, past, steady, -⟩ := reached.upheld upholds_steady
  have ends : Fallible.wp backend (fun _ _ _ => True) (fun _ => True)
    (Table.replaceMatching registry predicate replacements)
      (fun result s' w' => Swaps (s.liveRows disk) (keep s.schema predicate (s.liveRows disk))
        replacements.rows (s'.liveRows w'.disk)
        (∃ u, result = .ok u)) s ⟨disk, []⟩ :=
    Table.wp_replaceMatching (w := ⟨disk, []⟩) steady kernels (fun _ _ _ _ _ _ _ => trivial)
      fun _ _ _ _ _ _ _ swaps => swaps
  exact Fallible.wp_ran ends ran

/-- One row in the place of two. -/
def reissue : QueryOutput UInt64 :=
  ⟨tagged, [⟨tagged, [.i64 [7] none, .key [0] none ⟨["z"], List.nodup_singleton _⟩]⟩]⟩

def reissued : Option ((Store UInt64 × Disk UInt64) × (Store UInt64 × World UInt64)) := do
  let stored ← stocked
  let done := Program.complete backend
    .ok (Table.replaceMatching noFunctions (some (.compare "at" .ge (.int 2))) reissue stored.1)
    ⟨stored.2, []⟩
  let _ ← done.1.1.toOption
  return (stored, (done.1.2, done.2))

theorem Reached.replaced_swaps_reissued : ∃ (s s' : Store UInt64) (disk disk' : Disk UInt64),
    reissue.rows = [[.i64 7, .key "z"]] ∧
    Swaps (s.liveRows disk)
      (keep s.schema (some (.compare "at" .ge (.int 2))) (s.liveRows disk)) reissue.rows
    (s'.liveRows disk') True := by
  obtain ⟨⟨stored, s', w'⟩, made⟩ : ∃ made, reissued = some made :=
    Option.isSome_iff_exists.mp (by decide +kernel)
  rw [reissued] at made
  obtain ⟨stored₀, stocks, made⟩ := Option.bind_eq_some_iff.mp made
  obtain ⟨u, finished, same⟩ := Option.bind_eq_some_iff.mp made
  cases same
  obtain ⟨plan, -, ran⟩ := @Program.run_complete _ _ _ _ _ backend (fun _ _ _ => True) .ok
    (Table.replaceMatching noFunctions (some (.compare "at" .ge (.int 2))) reissue stored.1)
      ⟨stored.2, []⟩ (fun _ _ => trivial)
  have swaps := (stocked_reached stocks).replaced_swaps (by decide) ran
  exact ⟨_, _, _, _, by decide, swaps.imp fun _ => ⟨u, except_of_toOption finished⟩⟩

end TallyDB
