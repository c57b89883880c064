import TallyDB.StorageLite.Merge

/-!
# The next generation

Compaction writes the next generation beside the current one. Until the manifest names it the
disk recovers the ledger as it was, from then on the compacted one, whatever is left to sweep.
-/

namespace TallyDB

open Crash

variable {F : Type} [F64 F] {allow : World F → Call F → Outcome → Prop} {crash : World F → Prop}
variable {s : Store F} {w : World F} {segments past : List (Segment F)}
  {flushed live : List (Replayed F)}

/-- Reading, listing or removing may fail somewhere after `w`. -/
def ScanFails (allow : World F → Call F → Outcome → Prop) (w : World F) : Prop :=
  ∃ (w' : World F) (call : Call F) (left : Leftover), w.trace <+: w'.trace ∧
    (call = .list ∨ (∃ name, call = .read name) ∨ ∃ name, call = .remove name) ∧
      allow w' call (.err left)

omit [F64 F] in
theorem ScanFails.earlier {w' : World F} (fails : ScanFails allow w') (before : w.trace <+: w'.trace) :
    ScanFails allow w := by
  obtain ⟨v, call, left, after, rest⟩ := fails
  exact ⟨v, call, left, before.trans after, rest⟩

/-! ### Reading segments -/

/-- Only the trace differs. -/
def Quiet (before after : World F) : Prop := before.trace <+: after.trace ∧ after.disk = before.disk

omit [F64 F] in
theorem Quiet.refl (w : World F) : Quiet w w := ⟨List.prefix_rfl, rfl⟩

omit [F64 F] in
theorem Quiet.trans {first second third : World F} (left : Quiet first second)
    (right : Quiet second third) :
    Quiet first third := ⟨left.1.trans right.1, right.2.trans left.2⟩

section Read

variable {σ : Type} {state : σ} {schema : Schema} {segment : Segment F} {file : Option ObjectName}

omit [F64 F] in
theorem wp_fault {post : Except StorageError (Segment F) → σ → World F → Prop}
    {info : Option (SegmentMeta F)}
    {resident : Option (Segment F)} (own : segment.batch.schema = schema)
    (described : ∀ known, info = some known → known = .of segment)
    (data : resident = some segment ∨
      resident = none ∧ ∃ name, file = some name ∧ w.disk.get name = some (.segment segment))
    (before : crash w)
    (unread : ∀ w', Quiet w w' → ScanFails allow w → post (.error (.io (.backend .read))) state w')
    (done : ∀ w', Quiet w w' → post (.ok segment) state w') :
    Fallible.wp backend allow crash (fault schema file info resident) post state w := by
  rcases data with rfl | ⟨rfl, name, rfl, held⟩
  · exact done w (.refl w)
  · have passes : checkFaulted schema name info (.segment segment) = .ok segment := by
      cases info with
      | none => simp [checkFaulted, own]
      | some known =>
        have same := described known rfl
        simp [checkFaulted, own, same, SegmentMeta.of]
    simp only [fault, Fallible.wp_bind, Io.wp_read]
    refine ⟨before, fun _ => ?_, fun left allowed => ?_⟩
    · simp only [held, Fallible.wp_ofExcept, passes]
      exact done _ ⟨World.trace_did w _ _, rfl⟩
    · exact unread _ ⟨World.trace_did w _ _, rfl⟩ ⟨w, _, left, List.prefix_rfl,
        .inr (.inl ⟨name, rfl⟩), allowed⟩

structure SegmentHandle.Shows (handle : SegmentHandle F) (disk : Disk F)
    (view : SegmentView F) : Prop where
  yields : ∃ file, handle.slot.Yields disk file view.segment
  live : handle.live = view.live

omit [F64 F] in
theorem wp_views {post : Except StorageError (List (SegmentView F)) → σ → World F → Prop}
    {handles : List (SegmentHandle F)} {views : List (SegmentView F)} {disk : Disk F}
    (here : w.disk = disk)
    (shows : List.Forall₂ (fun handle view => handle.Shows disk view) handles views)
    (own : ∀ view ∈ views, view.segment.batch.schema = schema)
    (safe : ∀ w', Quiet w w' → crash w')
    (unread : ∀ w', Quiet w w' → ScanFails allow w → post (.error (.io (.backend .read))) state w')
    (done : ∀ w', Quiet w w' → post (.ok views) state w') :
    Fallible.wp backend allow crash
      (Fallible.collect (SegmentHandle.view schema) handles) post state w := by
  induction shows generalizing w post with
  | nil => exact done w (.refl w)
  | @cons handle view handles views head tail ih =>
    obtain ⟨file, yields⟩ := head.yields
    simp only [Fallible.collect, Fallible.wp_bind, SegmentHandle.view, SegmentSlot.segment, yields.name]
    refine wp_fault (own view List.mem_cons_self) (fun known same => ?_) (here ▸ yields.data)
      (safe w (.refl w)) unread ?_
    · exact (Option.some.inj same).symm.trans yields.info
    · intro w₁ first
      have same : handle.live = view.live := head.live
      simp only [Fallible.wp_pure, same]
      refine ih (first.2.trans here) (fun view member => own view (List.mem_cons_of_mem _ member))
        (fun w' quiet => safe w' (first.trans quiet))
          (fun w' quiet fails => unread w' (first.trans quiet) (fails.earlier first.1))
        fun w' quiet => ?_
      exact done w' (first.trans quiet)

end Read

/-! ### Removing and writing many objects -/

section Many

variable {σ : Type} {state : σ} {post : Except StorageError Unit → σ → World F → Prop}

omit [F64 F] in
theorem wp_removeAll {names : List ObjectName} (distinct : names.Nodup)
    (present : ∀ name ∈ names, (w.disk.get name).isSome)
    (safe : ∀ w', w.trace <+: w'.trace →
      (∀ name, name ∉ names → w'.disk.get name = w.disk.get name) → crash w')
    (failed : ∀ w', w.trace <+: w'.trace → (∀ name, name ∉ names → w'.disk.get name = w.disk.get name) →
      ScanFails allow w → post (.error (.io (.backend .remove))) state w')
    (done : ∀ w', w.trace <+: w'.trace → (∀ name, name ∉ names → w'.disk.get name = w.disk.get name) →
      (∀ name ∈ names, w'.disk.get name = none) → post (.ok ()) state w') :
    Fallible.wp backend allow crash (Fallible.each Io.remove names) post state w := by
  induction names generalizing w with
  | nil => exact done w List.prefix_rfl (fun _ _ => rfl) (by simp)
  | cons name names ih =>
    obtain ⟨fresh, distinct⟩ := List.nodup_cons.mp distinct
    have here := present name List.mem_cons_self
    simp only [Fallible.each, Fallible.wp_bind, Io.wp_remove, here, if_true]
    refine ⟨safe w List.prefix_rfl fun _ _ => rfl, fun _ => ?_, fun left allowed => ?_⟩
    · let w₁ := w.did (.remove name) .ok
      have gone (other : ObjectName) : w₁.disk.get other = if other =
          name then none else w.disk.get other := by
        obtain ⟨object, held⟩ := Option.isSome_iff_exists.mp here
        have erased : w₁.disk = w.disk.erase name := by simp [w₁, World.did, World.answer, held]
        rw [erased, Disk.get_erase]
      have first : w.trace <+: w₁.trace := World.trace_did w _ _
      have others {w' : World F} (same : ∀ other, other ∉ names → w'.disk.get other = w₁.disk.get other)
          (other : ObjectName) (outside : other ∉ name :: names) : w'.disk.get other =
            w.disk.get other := by
        obtain ⟨different, outside⟩ := not_or.mp (fun inside => outside (List.mem_cons.mpr inside))
        rw [same other outside, gone, if_neg different]
      refine ih distinct (fun other member => ?_)
        (fun w' later same => safe w' (first.trans later) (others same))
        (fun w' later same fails => failed w' (first.trans later) (others same) (fails.earlier first))
        fun w' later same empty => done w' (first.trans later) (others same) fun other member => ?_
      · have different : other ≠ name := by
          rintro rfl
          exact fresh member
        rw [gone, if_neg different]
        exact present other (List.mem_cons_of_mem _ member)
      · rcases List.mem_cons.mp member with rfl | rest
        · rw [same other fresh, gone, if_pos rfl]
        · exact empty other rest
    · exact failed _ (World.trace_did w _ _) (fun _ _ => rfl) ⟨w, _, left, List.prefix_rfl,
        .inr (.inr ⟨name, rfl⟩), allowed⟩

omit [F64 F] in
theorem wp_writeAll {β : Type} {name : β → ObjectName} {object : β → Object F} {xs : List β}
    (distinct : (xs.map name).Nodup) (plain : ∀ x file, object x ≠ .log file)
    (other : ∀ x generation number, name x ≠ .deleteLog generation number)
    (safe : ∀ w', w.trace <+: w'.trace → (∀ n, n ∉ xs.map name → w'.disk.get n = w.disk.get n) →
      crash w')
    (failed : ∀ w', w.trace <+: w'.trace → (∀ n, n ∉ xs.map name → w'.disk.get n = w.disk.get n) →
      WriteFails allow w → post (.error (.io (.backend .write))) state w')
    (done : ∀ w', w.trace <+: w'.trace → (∀ n, n ∉ xs.map name → w'.disk.get n = w.disk.get n) →
      (∀ x ∈ xs, w'.disk.get (name x) = some (object x)) → post (.ok ()) state w') :
    Fallible.wp backend allow crash
      (Fallible.each (fun x => Io.write (name x) (object x)) xs) post state w := by
  induction xs generalizing w with
  | nil => exact done w List.prefix_rfl (fun _ _ => rfl) (by simp)
  | cons x xs ih =>
    obtain ⟨fresh, distinct⟩ := List.nodup_cons.mp distinct
    simp only [Fallible.each, Fallible.wp_bind, Io.wp_write]
    refine ⟨safe w List.prefix_rfl fun _ _ => rfl, fun _ => ?_, fun left allowed => ?_⟩
    · let w₁ := w.did (.write (name x) (object x)) .ok
      have first : w.trace <+: w₁.trace := World.trace_did w _ _
      have put (n : ObjectName) : w₁.disk.get n = if n =
          name x then some (object x) else w.disk.get n :=
        Disk.get_publish (plain x)
      have others {w' : World F} (same : ∀ n, n ∉ xs.map name → w'.disk.get n = w₁.disk.get n)
          (n : ObjectName) (outside : n ∉ (x :: xs).map name) : w'.disk.get n = w.disk.get n := by
        obtain ⟨different, outside⟩ := not_or.mp (fun inside => outside (List.mem_cons.mpr inside))
        rw [same n outside, put, if_neg different]
      refine ih distinct (fun w' later same => safe w' (first.trans later) (others same))
        (fun w' later same fails => failed w' (first.trans later) (others same) (fails.earlier first))
        fun w' later same held => done w' (first.trans later) (others same) fun y member => ?_
      rcases List.mem_cons.mp member with rfl | rest
      · rw [same _ fresh, put, if_pos rfl]
      · exact held y rest
    · exact failed _ (World.trace_did w _ _) (fun _ _ => rfl) ⟨w, _, _, left, List.prefix_rfl,
        other x, allowed⟩

end Many

omit [F64 F] in
theorem Covers.distinct {base last : Nat} {all : List (Segment F)} (covers : Covers base all last)
    (filled : ∀ segment ∈ all, 0 < segment.numRows) : (all.map Segment.baseRowId).Nodup := by
  induction all generalizing base with
  | nil => simp
  | cons segment rest ih =>
    obtain ⟨start, after⟩ := covers
    refine List.nodup_cons.mpr ⟨fun member => ?_, ih after fun member inside =>
      filled member (List.mem_cons_of_mem _ inside)⟩
    obtain ⟨other, inside, same⟩ := List.mem_map.mp member
    have bound := (after.bound inside).1
    have own := filled segment List.mem_cons_self
    omega

namespace Store

/-! ### The names of a generation -/

/-- The names that a store at rest depends on. -/
def Owns (store : Store F) (past : List (Segment F)) : ObjectName → Prop
  | .manifest => True
  | .wal => True
  | .segment generation _ => generation = store.generation
  | .deleteLog generation _ => generation = store.generation
  | .history index => index < past.length

theorem Held.frame {disk other : Disk F} (held : s.Held disk segments past flushed live)
    (same : ∀ name, s.Owns past name → other.get name = disk.get name) :
    s.Held other segments past flushed live where
  sound := held.sound.frame fun name reads => same name (by cases name <;> simp_all [Reads, Owns])
  logged full := by
    have logged := held.logged full
    refine ⟨logged.layout.frame fun name inside => same name (by
        cases name <;> simp_all [InLayout, Owns]),
      logged.killedDurable, fun sequence committed => logged.witnessed sequence
        ((Committed.frame fun number => same (.deleteLog s.generation number) rfl).mp committed),
        ?_, ?_, logged.ordinary⟩
    · obtain ⟨writer, base, holds, start, log⟩ := logged.log.file
      exact ⟨⟨writer, base, holds, start, (same .wal trivial).trans log⟩, logged.log.rows,
        logged.log.shared⟩
    · intro bare base object found
      exact logged.leftover bare base object ((same (.segment s.generation base) rfl).symm.trans found)

theorem Sound.snapshot {disk : Disk F} {handles : List (SegmentHandle F)}
    (sound : s.Sound disk segments past)
    (taken : s.snapshot = .ok handles) : ∃ all, Pieces s segments all ∧
      List.Forall₂ (fun handle view => handle.Shows disk view) handles (all.map s.viewOf) := by
  have published : List.Forall₂ (fun handle view => SegmentHandle.Shows handle disk view)
      (s.segments.map s.handleOf) (segments.map s.viewOf) := by
    refine List.forall₂_map_left_iff.mpr
      (List.forall₂_map_right_iff.mpr (sound.slots.imp fun slot segment yields => ?_))
    refine ⟨⟨_, yields⟩, ?_⟩
    have described := yields.info
    simp only [handleOf, described]
    rfl
  unfold Store.snapshot at taken
  simp only at taken
  split at taken
  · next empty =>
    obtain rfl := Except.ok.inj taken
    exact ⟨segments, sound.pieces_empty (isEmpty_iff.mp empty), published⟩
  · next filled =>
    cases frozen : s.frozenBuffer with
    | error e =>
      rw [frozen] at taken
      cases taken
    | ok segment =>
      rw [frozen] at taken
      obtain rfl := Except.ok.inj taken
      refine ⟨segments ++ [segment], sound.pieces_frozen (by
          simpa using filled) (sound.frozen frozen), ?_⟩
      rw [List.map_append]
      exact List.rel_append published (.cons ⟨⟨none, rfl, rfl, .inl rfl⟩, rfl⟩ .nil)

/-! ### Publishing the merge -/

structure Published (store : Store F) (merged : Merged F) (past : List (Segment F))
    (before after : World F) : Prop where
  later : before.trace <+: after.trace
  wal : after.disk.get .wal = before.disk.get .wal
  manifest : after.disk.get .manifest = some (.manifest
    ⟨store.schema, store.orderingKey, store.generation + 1, store.mergedSections merged⟩)
  segments : ∀ segment ∈ merged.segments,
    after.disk.get (.segment (store.generation + 1) segment.baseRowId) = some (.segment segment)
  noOthers : ∀ base object, after.disk.get (.segment (store.generation + 1) base) = some object →
    merged.segments ≠ []
  noLogs : ∀ number, after.disk.get (.deleteLog (store.generation + 1) number) = none
  oldHistory : ∀ index < past.length, after.disk.get (.history index) = before.disk.get (.history index)
  newHistory : ∀ index segment, merged.history[index]? = some segment →
    after.disk.get (.history (past.length + index)) = some (.segment segment)

variable {merged : Merged F} {all : List (Segment F)}
  {post : Except StorageError Unit → Store F → World F → Prop}

theorem wp_publishMerged (sound : s.Sound w.disk segments past) (merges : MergeOf s all merged)
    (safe : ∀ w', w.trace <+: w'.trace →
      (∀ name, s.Owns past name → w'.disk.get name = w.disk.get name) → crash w')
    (failed : ∀ e w', w.trace <+: w'.trace →
      (∀ name, s.Owns past name → w'.disk.get name = w.disk.get name) →
      WriteFails allow w ∨ ScanFails allow w → post (.error (.io (.backend e))) s w')
    (done : ∀ w', s.Published merged past w w' →
      post (.ok ()) { s with generation := s.generation + 1 } w') :
    Fallible.wp backend allow crash (publishMerged merged) post s w := by
  have known : s.sections.history.length = past.length := by rw [sound.remembered]; simp
  have ownPlain (name : ObjectName) (own : s.Owns past name) : s.isStray name = false := by
    cases name with
    | segment generation base =>
      have same : generation = s.generation := own
      simp [isStray, same]
    | deleteLog generation number =>
      have same : generation = s.generation := own
      simp [isStray, same]
    | history index =>
      have bound : index < past.length := own
      simp [isStray, sound.remembered, bound]
    | _ => rfl
  simp only [publishMerged, Fallible.wp_bind, Fallible.wp_read, Io.wp_list]
  refine ⟨safe w List.prefix_rfl fun _ _ => rfl, fun _ => ?_, fun left allowed => ?_⟩
  · let w₀ := w.did .list .ok
    have first : w.trace <+: w₀.trace := World.trace_did w _ _
    have keep (name : ObjectName) (own : s.Owns past name) : name ∉ w.disk.names.filter s.isStray :=
        fun member => by
      have stray := (List.mem_filter.mp member).2
      rw [ownPlain name own] at stray
      cases stray
    refine wp_removeAll ((AList.keys_nodup w.disk.objects).filter _)
      (fun name member => Disk.mem_names.mp (List.mem_filter.mp member).1)
      (fun w' later same => safe w' (first.trans later) fun name own => same name (keep name own))
      (fun w' later same fails =>
        failed .remove w' (first.trans later) (fun name own => same name (keep name own))
        (.inr (fails.earlier first))) fun w₁ later same gone => ?_
    have second : w.trace <+: w₁.trace := first.trans later
    have strayless (name : ObjectName) (stray : s.isStray name = true) : w₁.disk.get name = none := by
      by_cases listed : name ∈ w.disk.names
      · exact gone name (List.mem_filter.mpr ⟨listed, stray⟩)
      · rw [same name fun member => listed (List.mem_filter.mp member).1]
        have absent : w.disk.get name = none := by simpa using mt Disk.mem_names.mpr listed
        exact absent
    have below₁ (name : ObjectName) (own : s.Owns past name) : w₁.disk.get name = w.disk.get name :=
      same name (keep name own)
    -- The history segments, under numbers that the manifest does not name yet.
    have historyNames :
        (merged.history.zipIdx.map fun x => ObjectName.history (past.length + x.2)).Nodup := by
      have numbers : (merged.history.zipIdx.map Prod.snd).Nodup := by
        rw [List.zipIdx_map_snd]
        exact List.nodup_range'
      have apart : Function.Injective fun index => ObjectName.history (past.length + index) :=
          fun left right same => by
        simpa using same
      have mapped := numbers.map apart
      rwa [List.map_map] at mapped
    have historyKeep (name : ObjectName) (other : ∀ index, past.length ≤ index →
      name ≠ .history index) :
        name ∉ merged.history.zipIdx.map fun x => ObjectName.history (past.length + x.2) :=
          fun member => by
      obtain ⟨x, -, same⟩ := List.mem_map.mp member
      exact other _ (Nat.le_add_right _ _) same.symm
    have ownHistory (name : ObjectName) (own : s.Owns past name) (index : Nat)
      (above : past.length ≤ index) :
        name ≠ .history index := by
      rintro rfl
      exact absurd own (Nat.not_lt.mpr above)
    rw [known]
    refine @wp_writeAll F allow crash w₁ (Store F) s _ (Segment F × Nat)
      (fun x => .history (past.length + x.2))
      (fun x => .segment x.1) merged.history.zipIdx historyNames (by simp) (by simp)
      (fun w' later same => safe w' (second.trans later) fun name own =>
        (same name (historyKeep name (ownHistory name own))).trans (below₁ name own))
      (fun w' later same fails => failed .write w' (second.trans later) (fun name own =>
        (same name (historyKeep name (ownHistory name own))).trans (below₁ name own))
        (.inl (fails.earlier second)))
      fun w₂ later same₂ historyHeld => ?_
    have third : w.trace <+: w₂.trace := second.trans later
    have below₂ (name : ObjectName) (own : s.Owns past name) : w₂.disk.get name = w.disk.get name :=
      (same₂ name (historyKeep name (ownHistory name own))).trans (below₁ name own)
    -- The segments of the next generation.
    have segmentNames : (merged.segments.map fun segment =>
        ObjectName.segment (s.generation + 1) segment.baseRowId).Nodup := by
      have apart : Function.Injective fun base => ObjectName.segment (s.generation + 1) base :=
          fun left right same => by
        simpa using same
      have mapped := (merges.covers.distinct fun segment member =>
        (merges.ok segment member).filled).map apart
      rwa [List.map_map] at mapped
    have segmentKeep (name : ObjectName) (other : ∀ base, name ≠ .segment (s.generation + 1) base) :
        name ∉ merged.segments.map fun segment =>
          ObjectName.segment (s.generation + 1) segment.baseRowId := fun member => by
      obtain ⟨x, -, same⟩ := List.mem_map.mp member
      exact other _ same.symm
    have ownSegment (name : ObjectName) (own : s.Owns past name) (base : Nat) :
        name ≠ .segment (s.generation + 1) base := by
      rintro rfl
      exact absurd own (Nat.succ_ne_self _)
    refine @wp_writeAll F allow crash w₂ (Store F) s _ (Segment F) (fun segment =>
      .segment (s.generation + 1) segment.baseRowId) (fun segment => .segment segment)
      merged.segments segmentNames (by simp)
      (by simp)
      (fun w' later same => safe w' (third.trans later) fun name own =>
        (same name (segmentKeep name (ownSegment name own))).trans (below₂ name own))
      (fun w' later same fails => failed .write w' (third.trans later) (fun name own =>
        (same name (segmentKeep name (ownSegment name own))).trans (below₂ name own))
        (.inl (fails.earlier third)))
      fun w₃ later same₃ segmentsHeld => ?_
    have fourth : w.trace <+: w₃.trace := third.trans later
    have below₃ (name : ObjectName) (own : s.Owns past name) : w₃.disk.get name = w.disk.get name :=
      (same₃ name (segmentKeep name (ownSegment name own))).trans (below₂ name own)
    simp only [Io.wp_write, Fallible.wp_update]
    refine ⟨safe w₃ fourth below₃, fun _ => done _ ?_, fun left allowed => ?_⟩
    · let w₄ := w₃.did (.write .manifest (.manifest
        ⟨s.schema, s.orderingKey, s.generation + 1, s.mergedSections merged⟩)) .ok
      have put (name : ObjectName) : w₄.disk.get name = if name = .manifest then
          some (.manifest ⟨s.schema, s.orderingKey, s.generation + 1, s.mergedSections merged⟩)
            else w₃.disk.get name :=
        Disk.get_publish (by simp)
      have bare (name : ObjectName) (different : name ≠ .manifest)
        (plain : ∀ base, name ≠ .segment (s.generation + 1) base)
          (old : ∀ index, past.length ≤ index → name ≠ .history index) : w₄.disk.get name =
            w₁.disk.get name := by
        rw [put, if_neg different, same₃ name (segmentKeep name plain),
          same₂ name (historyKeep name old)]
      refine ⟨fourth.trans (World.trace_did w₃ _ _), ?_, (put _).trans (if_pos rfl), ?_, ?_, ?_, ?_, ?_⟩
      · exact (bare .wal (by simp) (by simp) (by simp)).trans (below₁ .wal trivial)
      · exact fun segment member => ((put _).trans (if_neg (by simp))).trans
          (segmentsHeld segment member)
      · intro base object held none
        have name : ObjectName.segment (s.generation + 1) base ∉ merged.segments.map fun segment =>
            ObjectName.segment (s.generation + 1) segment.baseRowId := by simp [none]
        have absent := strayless (.segment (s.generation + 1) base) (by simp [isStray])
        change w₄.disk.get _ = _ at held
        rw [put, if_neg (by simp), same₃ _ name, same₂ _ (historyKeep _ (by simp)), absent] at held
        cases held
      · exact fun number => (bare _ (by simp) (by simp) (by simp)).trans
          (strayless (.deleteLog (s.generation + 1) number) (by simp [isStray]))
      · intro index bound
        have own : s.Owns past (.history index) := bound
        exact (bare _ (by simp) (by simp) (ownHistory _ own)).trans (below₁ _ own)
      · intro index segment held
        have member : (segment, index) ∈ merged.history.zipIdx :=
          List.mk_mem_zipIdx_iff_getElem?.mpr held
        have found := historyHeld (segment, index) member
        exact (((put _).trans (if_neg (by simp))).trans (same₃ _ (segmentKeep _ (by simp)))).trans found
    · exact failed .write _ (fourth.trans (World.trace_did w₃ _ _)) below₃
        (.inl ⟨w₃, .manifest, _, left, fourth, by simp, allowed⟩)
  · exact failed .list _ (World.trace_did w _ _) (fun _ _ => rfl)
      (.inr ⟨w, _, left, List.prefix_rfl, .inl rfl, allowed⟩)

/-! ### The compacted store -/

def compacted (store : Store F) (merged : Merged F) : Store F :=
  { store with generation := if store.persistent then store.generation + 1 else store.generation }.adopted
    (store.mergedSections merged) merged

theorem ledger_compacted (pieces : Pieces s segments all)
    (keyed : s.schema.checkOrderingKey s.orderingKey = .ok ())
    (merges : MergeOf s all merged) :
    (s.compacted merged).ledger merged.segments = (s.ledger segments).compacted s.orderingKey := by
  rw [← orderOf_cells pieces keyed merges.valid]
  change ledgerOf (merged.segments.flatMap Segment.rows ++ []) [] = _
  rw [List.append_nil, merges.cells, ledgerOf]
  refine List.ext_getElem (by simp) fun i bound _ => ?_
  simp

omit [F64 F] in
theorem compacted_full : (s.compacted merged).Full ↔ s.Full :=
  ⟨fun full => ⟨full.persistent, full.walSync, full.logs⟩,
    fun full => ⟨full.persistent, full.walSync, full.logs⟩⟩

theorem watermark_compacted (merges : MergeOf s all merged) :
    (s.compacted merged).watermark = s.watermark := by
  rw [← merges.watermark]
  unfold compacted adopted watermark
  cases merged.watermark <;> rfl

theorem Sound.compacted {w' : World F} (sound : s.Sound w.disk segments past)
    (pieces : Pieces s segments all)
    (merges : MergeOf s all merged) (published : s.persistent = true → s.Published merged past w w') :
    (s.compacted merged).Sound w'.disk merged.segments (past ++ merged.history) where
  writable := sound.writable
  keyed := sound.keyed
  threshold := sound.threshold
  bufferSchema := rfl
  bufferKey := rfl
  axis := by
    refine ⟨rfl, ?_, ?_⟩ <;> intro knowledge known
    · intro births explicit
      obtain ⟨next, -, rfl⟩ := Option.map_eq_some_iff.mp known
      cases explicit
    · intro _
      obtain ⟨next, -, rfl⟩ := Option.map_eq_some_iff.mp known
      rfl
  slots := by
    refine List.forall₂_map_left_iff.mpr (List.forall₂_same.mpr fun segment _ => ⟨rfl, ?_, .inl rfl⟩)
    rfl
  segmentsOk := merges.ok
  covers := merges.covers
  below birth member := by
    have none : (s.compacted merged).bufferBirths = [] := by
      unfold Store.compacted adopted bufferBirths
      cases merged.watermark <;> rfl
    rw [none, List.append_nil, merges.births] at member
    rw [watermark_compacted merges]
    refine sound.below birth ?_
    rw [← pieces.births, ← @entriesOf_births F all s.orderingKey]
    obtain ⟨entry, inside, rfl⟩ := List.mem_map.mp member
    exact List.mem_map_of_mem (List.mem_filter.mp ((List.mem_insertionSort _).mp inside)).1
  killed id dead := by simp [Store.compacted, adopted, isKilled, killedAt] at dead
  history := by
    have count : s.sections.history.length = past.length := by rw [sound.remembered]; simp
    rw [List.zipIdx_append]
    refine List.rel_append ?_ ?_
    · refine forall₂_imp_mem sound.history fun slot entry member yields => ?_
      have bound : entry.2 < past.length := by simpa using List.snd_lt_of_mem_zipIdx member
      have name : (s.compacted merged).historyName entry.2 = s.historyName entry.2 := rfl
      rw [name]
      refine yields.frame fun own named => ?_
      unfold historyName at named
      split at named
      · next stored =>
        obtain rfl := Option.some.inj named
        exact (published stored).oldHistory entry.2 bound
      · cases named
    · rw [Nat.zero_add, @List.zipIdx_eq_map_add _ merged.history past.length]
      refine List.forall₂_map_left_iff.mpr
        (List.forall₂_map_right_iff.mpr (List.forall₂_same.mpr fun entry _ => ?_))
      refine ⟨?_, .inl rfl⟩
      change s.historyName (s.sections.history.length + entry.2) = s.historyName (past.length + entry.2)
      rw [count]
  pastOk segment member :=
    (List.mem_append.mp member).elim (sound.pastOk segment) (merges.historyOk segment)
  remembered := by
    have count : s.sections.history.length = past.length := by rw [sound.remembered]; simp
    change s.sections.history ++ _ = _
    rw [count, sound.remembered, List.length_append, List.range_add, List.map_append, List.map_map]
    rfl
  virtual bare := by
    refine merges.virtual ?_
    simpa [Store.compacted, adopted] using bare
  inOrder := WriteBuffer.empty_inOrder _ _

/-- What the disk recovers once the next generation is committed, whatever its log holds. -/
theorem Sound.laidCompacted {w' : World F} (sound : s.Sound w.disk segments past)
    (pieces : Pieces s segments all)
    (merges : MergeOf s all merged) (stored : s.persistent = true) (historyFiles : ∀ index segment,
      past[index]? = some segment → w.disk.get (.history index) = some (.segment segment))
    (published : s.Published merged past w w') :
    Laid w'.disk s.schema s.orderingKey (s.compacted merged).generation
      (s.compacted merged).sections merged.segments
      (past ++ merged.history) (s.compacted merged).tombstones (s.compacted merged).deleteLogSequence
      (s.compacted merged).bufferBase [] := by
  have after := sound.compacted pieces merges fun _ => published
  have next : (s.compacted merged).generation = s.generation + 1 := if_pos stored
  refine ⟨⟨?_, ?_, ?_, ?_, ?_, ?_, ?_⟩, after.covers, after.segmentsOk, after.pastOk, ?_, ?_⟩
  · rw [next]
    exact published.manifest
  · change (s.mergedSections merged).segments = _
    rw [next, mergedSections, if_pos stored]
  · rw [next]
    exact published.segments
  · exact after.remembered
  · intro index segment held
    rcases Nat.lt_or_ge index past.length with old | new
    · rw [List.getElem?_append_left old] at held
      rw [published.oldHistory index old]
      exact historyFiles index segment held
    · rw [List.getElem?_append_right new] at held
      have written := published.newHistory _ segment held
      rwa [Nat.add_sub_cancel' new] at written
  · intro number object held
    rw [next, published.noLogs] at held
    cases held
  · intro id stamp dead
    cases dead
  · intro id dead
    cases dead
  · intro bare base object held
    rw [next] at held
    exact absurd bare (published.noOthers base object held)

/-! ### Compaction -/

omit [F64 F] in
/-- Sweeping touches no name of the generation. -/
theorem wp_sweep
    (safe : ∀ w', w.trace <+: w'.trace →
      (∀ name, s.Owns past name → w'.disk.get name = w.disk.get name) → crash w')
    (done : ∀ w', w.trace <+: w'.trace →
      (∀ name, s.Owns past name → w'.disk.get name = w.disk.get name) →
      post (.ok ()) s w') :
    Fallible.wp backend allow crash sweep post s w := by
  have body (names : List ObjectName) (stale : ∀ name ∈ names, s.isStale name = true) (w₁ : World F)
      (later : w.trace <+: w₁.trace) (same : ∀ name, s.Owns past name →
        w₁.disk.get name = w.disk.get name) :
      Fallible.wp backend allow crash (Fallible.each (fun name => do
        let _ ← Fallible.attempt (Io.remove name)
        pure ()) names) post s w₁ := by
    refine Fallible.wp_each (fun rest s' w' => s' = s ∧ (∀ name ∈ rest, s.isStale name = true) ∧
      w.trace <+: w'.trace ∧
      ∀ name, s.Owns past name → w'.disk.get name = w.disk.get name) ⟨rfl, stale, later, same⟩ ?_ ?_
    · rintro name rest s' w' ⟨rfl, stale, later, same⟩
      simp only [Fallible.wp_bind, Fallible.wp_attempt, Io.wp_remove, Fallible.wp_pure]
      have still (outcome : Outcome) (other : ObjectName) (own : s'.Owns past other) :
          (w'.did (.remove name) outcome).disk.get other = w'.disk.get other := by
        have different : other ≠ name := by
          rintro rfl
          have gone := stale other List.mem_cons_self
          cases other with
          | segment generation base =>
            have mine : generation = s'.generation := own
            simp [isStale, mine] at gone
          | deleteLog generation number =>
            have mine : generation = s'.generation := own
            simp [isStale, mine] at gone
          | _ => cases gone
        cases outcome with
        | err left => rfl
        | ok =>
          cases present : w'.disk.get name with
          | none => simp [World.did, World.answer, present]
          | some object =>
            have erased : (w'.did (.remove name) .ok).disk = w'.disk.erase name := by
              simp [World.did, World.answer, present]
            rw [erased, Disk.get_erase, if_neg different]
      have onward (outcome : Outcome) : True ∧ (∀ name ∈ rest, s'.isStale name = true) ∧
          w.trace <+: (w'.did (.remove name) outcome).trace ∧
          ∀ other, s'.Owns past other →
            (w'.did (.remove name) outcome).disk.get other = w.disk.get other :=
        ⟨trivial, fun other member => stale other (List.mem_cons_of_mem _ member),
          later.trans (World.trace_did w' _ _),
          fun other own => (still outcome other own).trans (same other own)⟩
      exact ⟨safe w' later same, fun _ => onward .ok, fun left _ => onward (.err left)⟩
    · rintro s' w' ⟨rfl, -, later, same⟩
      exact done w' later same
  simp only [sweep, Fallible.wp_bind, Fallible.wp_read, Fallible.wp_attempt, Io.wp_list]
  refine ⟨safe w List.prefix_rfl fun _ _ => rfl, fun _ => ?_, fun left _ => ?_⟩
  · exact body _ (fun name member => (List.mem_filter.mp member).2) _
      (World.trace_did w _ _) fun _ _ => rfl
  · exact body _ (fun name member => (List.mem_filter.mp member).2) _
      (World.trace_did w _ _) fun _ _ => rfl

/-- The rule for a compaction. Before the commit the store is as it was; past it, only the
log's reset can still fail. -/
theorem wp_compact (held : s.Held w.disk segments past flushed live)
    (safe : ∀ w', (s.Full →
      w'.disk.Recovers s.schema s.orderingKey (s.pending w.disk live) fun ledger =>
      ledger = s.settledLedger w.disk segments live ∨
      ledger = (s.ledger segments).compacted s.orderingKey) → crash w')
    (unchanged : ∀ e w', w.trace <+: w'.trace →
      (∀ name, s.Owns past name → w'.disk.get name = w.disk.get name) →
      s.Held w'.disk segments past flushed live → post (.error e) s w')
    (broken : ∀ e s' w', w.trace <+: w'.trace → LogWriteFails allow w ∨ OpenFails allow w →
      (s.Full → w'.disk.Recovers s.schema s.orderingKey (s.pending w.disk live)
      (· = (s.ledger segments).compacted s.orderingKey)) →
      post (.error (.io (.backend e))) s' w')
    (done : ∀ all merged writer w', Pieces s segments all → MergeOf s all merged →
      w.trace <+: w'.trace →
      ({ s.compacted merged with wal := writer }).Held w'.disk merged.segments
      (past ++ merged.history) [] [] →
      writer.isSome = s.wal.isSome → post (.ok ()) { s.compacted merged with wal := writer } w') :
    Fallible.wp backend allow crash compact post s w := by
  have still {w' : World F} (same : ∀ name, s.Owns past name → w'.disk.get name = w.disk.get name)
    (full : s.Full) :
      w'.disk.Recovers s.schema s.orderingKey (s.pending w.disk live) fun ledger =>
        ledger = s.settledLedger w.disk segments live ∨
          ledger = (s.ledger segments).compacted s.orderingKey := by
    have held' := held.frame same
    have logs (number : Nat) : w'.disk.get (.deleteLog s.generation number) = w.disk.get
        (.deleteLog s.generation number) :=
      same (.deleteLog s.generation number) rfl
    refine Disk.Recovers.widen
      ((held'.logged full).recovers held'.sound (.inl (settledLedger_congr logs))) ?_
    exact pending_subset rfl (fun _ => (Committed.frame logs).mpr) fun _ => .inl
  have quietly {w' : World F} (quiet : Quiet w w') (name : ObjectName) (_ : s.Owns past name) :
      w'.disk.get name = w.disk.get name := by rw [quiet.2]
  -- Once the next generation stands, the log is reset and the last one swept.
  have settle (all : List (Segment F)) (merged : Merged F) (w₂ : World F)
    (pieces : Pieces s segments all)
      (merges : MergeOf s all merged) (later : w.trace <+: w₂.trace)
      (sound : (s.compacted merged).Sound w₂.disk merged.segments (past ++ merged.history))
      (laid : s.Full → Laid w₂.disk s.schema s.orderingKey (s.compacted merged).generation
        (s.compacted merged).sections
        merged.segments (past ++ merged.history) (s.compacted merged).tombstones
        (s.compacted merged).deleteLogSequence
        (s.compacted merged).bufferBase [])
      (foreign : s.Full → ∃ file, w₂.disk.get .wal = some (.log file) ∧
        file.generation ≠ (s.compacted merged).generation) :
      Fallible.wp backend allow crash (do
        resetWal
        Fallible.when s.persistent sweep) post (s.compacted merged) w₂ := by
    have ledger := ledger_compacted pieces held.sound.keyed merges
    have uncommitted (full : s.Full) (sequence : Nat) : ¬ Committed w₂.disk
        (s.compacted merged).generation sequence := by
      rintro ⟨-, number, log, found, -⟩
      exact absurd ((laid full).layout.deleteLogs number _ found).1 (Nat.not_lt_zero _)
    have recovers (full : s.Full) :
        w₂.disk.Recovers s.schema s.orderingKey []
          (· = (s.compacted merged).ledger merged.segments) := by
      obtain ⟨file, held, other⟩ := foreign full
      have none : committedOf w₂.disk (s.compacted merged).generation = [] :=
        List.eq_nil_iff_forall_not_mem.mpr fun sequence member =>
          uncommitted full sequence (mem_committedOf.mp member)
      refine (laid full).recovers_foreign held other none ?_
      change _ = ledgerOf (merged.segments.flatMap Segment.rows ++ []) _
      rw [List.append_nil]
    refine Fallible.wp_bind.mpr
      (@wp_resetWal F _ allow crash (s.compacted merged) w₂ merged.segments (past ++ merged.history) _
      sound (fun full => laid (compacted_full.mp full))
      (fun full sequence committed =>
      (uncommitted (compacted_full.mp full) sequence committed).elim)
      (fun full => recovers (compacted_full.mp full)) rfl ?_ ?_ ?_ ?_)
    · exact fun w' recovers => safe w' fun full =>
        ((recovers (compacted_full.mpr full)).widen (List.nil_subset _)).mono fun _ same =>
          .inr (same.trans ledger)
    · intro w' disk onward fails
      refine broken .write _ w' (later.trans onward) (.inl (fails.earlier later)) fun full => ?_
      rw [disk]
      exact ((recovers full).widen (List.nil_subset _)).mono fun _ same => same.trans ledger
    · intro w' onward fails recovers
      exact broken .openLog _ w' (later.trans onward) (.inr (fails.earlier later)) fun full =>
        ((recovers (compacted_full.mpr full)).widen (List.nil_subset _)).mono fun _ same =>
          same.trans ledger
    · intro w' writer onward logs _ sound' logged'
      have held' : ({ s.compacted merged with wal := writer }).Held w'.disk merged.segments
          (past ++ merged.history) [] [] :=
        ⟨sound', logged'⟩
      simp only [Fallible.wp_when]
      refine ⟨fun stored =>
        @wp_sweep F _ _ _ _ (past ++ merged.history) _ (fun w'' _ same => safe w'' fun full => ?_)
        ?_, fun memory => ?_⟩
      · have held'' := held'.frame same
        have full' : ({ s.compacted merged with wal := writer }).Full :=
          ⟨full.persistent, full.walSync, logs ▸ full.logs⟩
        have logged'' := held''.logged full'
        refine Disk.Recovers.widen (logged''.recovers held''.sound (.inr ?_)) (List.nil_subset _)
        exact (logged''.settled_empty rfl).trans ledger
      · exact fun w'' onward' same =>
          done all merged writer w'' pieces merges ((later.trans onward).trans onward')
            (held'.frame same) logs
      · exact done all merged writer w' pieces merges (later.trans onward) held' logs
  simp only [compact, Fallible.wp_bind, wp_refuseReadOnly held.sound.writable, Fallible.wp_read,
    Fallible.wp_ofExcept]
  cases taken : s.snapshot with
  | error e => exact unchanged e w List.prefix_rfl (fun _ _ => rfl) held
  | ok handles =>
    obtain ⟨all, pieces, shows⟩ := held.sound.snapshot taken
    refine wp_views rfl shows ?_ (fun w' quiet => safe w' (still (quietly quiet))) ?_ ?_
    · intro view member
      obtain ⟨segment, inside, rfl⟩ := List.mem_map.mp member
      exact (pieces.ok segment inside).schema
    · exact fun w' quiet _ => unchanged _ w' quiet.1 (quietly quiet) (quiet.2 ▸ held)
    · intro w₁ quiet
      have held₁ : s.Held w₁.disk segments past flushed live := quiet.2 ▸ held
      cases merge : s.merge (all.map s.viewOf) with
      | error e =>
        simp only [merge]
        exact unchanged e w₁ quiet.1 (quietly quiet) held₁
      | ok merged =>
        have merges := merge_spec pieces held.sound.keyed held.sound.threshold merge
        simp only [merge, Fallible.wp_when, Fallible.wp_update]
        refine ⟨fun stored => ?_, fun memory => ?_⟩
        · have onward {w' : World F} (same : ∀ name, s.Owns past name →
            w'.disk.get name = w₁.disk.get name)
              (name : ObjectName) (own : s.Owns past name) : w'.disk.get name = w.disk.get name :=
            (same name own).trans (quietly quiet name own)
          refine wp_publishMerged held₁.sound merges
            (fun w' later same => safe w' (still (onward same))) ?_ ?_
          · exact fun e w' later same _ => unchanged _ w' (quiet.1.trans later) (onward same)
              (held.frame (onward same))
          · intro w₂ published
            have next : (s.compacted merged).generation = s.generation + 1 := if_pos stored
            have adopts : ({ s with generation := s.generation + 1 } : Store F).adopted
              (s.mergedSections merged) merged =
                s.compacted merged := by
              unfold compacted
              rw [if_pos stored]
            have rest := settle all merged w₂ pieces merges (quiet.1.trans published.later)
              (held₁.sound.compacted pieces merges fun _ => published)
              (fun full => held₁.sound.laidCompacted pieces merges stored
                (held₁.logged full).layout.historyFiles published)
              (fun full => by
                obtain ⟨writer, base, -, -, log⟩ := (held₁.logged full).log.file
                refine ⟨_, published.wal.trans log, ?_⟩
                rw [next]
                exact (Nat.succ_ne_self _).symm)
            rw [adopts]
            simpa only [Fallible.wp_bind, Fallible.wp_when] using rest
        · have short (full : s.Full) : False := by
            have stored := full.persistent
            rw [memory] at stored
            cases stored
          have adopts : s.adopted (s.mergedSections merged) merged = s.compacted merged := by
            unfold compacted
            rw [if_neg (by simp [memory])]
          have rest := settle all merged w₁ pieces merges quiet.1
            (held₁.sound.compacted pieces merges fun stored => by simp [memory] at stored)
            (fun full => (short full).elim) (fun full => (short full).elim)
          rw [adopts]
          simpa only [Fallible.wp_bind, Fallible.wp_when] using rest

end Store

end TallyDB
