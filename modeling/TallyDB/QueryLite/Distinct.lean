import TallyDB.ArrowLite.Exactness
import TallyDB.QueryLite.TopK
import TallyDB.StorageLite.RoundTrip

/-!
# The rows of a distinct answer

`DISTINCT` tells rows apart by the bytes of their cells, one cell behind the other. No cell's
bytes begin another's, so the bytes of two rows agree just where their values do.
-/

namespace TallyDB

open Wire

variable {F : Type} [F64 F]

/-! ### Equal values -/

/-- One value: a null equals a null, floats go by the number they hold and texts by their
characters. -/
def RowValue.Same : RowValue F → RowValue F → Prop
  | .null, .null => True
  | .f64 left, .f64 right => F64.exact left = F64.exact right
  | .i64 left, .i64 right => left = right
  | .key left, .key right => left = right
  | _, _ => False

instance (left right : RowValue F) : Decidable (left.Same right) := by
  cases left <;> cases right <;> unfold RowValue.Same <;> infer_instance

def Row.Same (left right : Row F) : Prop := List.Forall₂ RowValue.Same left right

instance (left right : Row F) : Decidable (Row.Same left right) :=
  inferInstanceAs (Decidable (List.Forall₂ RowValue.Same left right))

def firsts (rows : List (Row F)) : List Nat :=
  (List.range rows.length).filter fun i => ∀ j < i, ¬ Row.Same (rows.getD j []) (rows.getD i [])

/-! ### Identities -/

/-- One float for each number. -/
def canonical (value : F) : F :=
  if F64.isNan value then F64.nan else if F64.exact value = .finite 0 then F64.zero else value

theorem canonical_eq_iff [LawfulValues F] {left right : F} : canonical left = canonical right ↔
    F64.exact left = F64.exact right := by
  have exact_canonical (value : F) : F64.exact (canonical value) = F64.exact value := by
    unfold canonical F64.isNan
    split
    · next nan => rw [LawfulValues.nan, of_decide_eq_true nan]
    · split
      · next zero => rw [LawfulValues.zero, zero]
      · rfl
  constructor
  · intro same
    rw [← exact_canonical left, same, exact_canonical]
  · intro same
    by_cases nan : F64.exact left = .nan
    · simp [canonical, F64.isNan, nan, ← same]
    · by_cases zero : F64.exact left = .finite 0
      · simp [canonical, F64.isNan, zero, ← same]
      · rw [LawfulValues.injective left right same nan zero]

namespace RowValue

def identity : RowValue F → Bytes
  | .null => [0]
  | .f64 value => 1 :: toLe 8 (F64.toBits (canonical value)).toNat
  | .i64 value => 2 :: toLe 8 value.toUInt64.toNat
  | .key text => 3 :: toLe 4 (utf8 text).length ++ utf8 text

/-- A text whose length its identity can hold. -/
def Short (value : RowValue F) : Prop := ∀ text, value = .key text → (utf8 text).length < 2 ^ 32

theorem identity_same [LawfulValues F] {left right : RowValue F} (same : left.Same right) :
    left.identity = right.identity := by
  cases left <;> cases right <;> try cases same
  · next left right => rw [identity, identity, canonical_eq_iff.mpr same]
  · rfl
  · rfl
  · rfl

theorem toLe_append_inj {width a b : Nat} {rest rest' : Bytes} (small : a < 256 ^ width)
    (small' : b < 256 ^ width)
    (same : toLe width a ++ rest = toLe width b ++ rest') : a = b ∧ rest = rest' := by
  obtain ⟨number, rest⟩ := List.append_inj same (by rw [toLe_length, toLe_length])
  refine ⟨?_, rest⟩
  rw [← ofLe_toLe_of_lt small, number, ofLe_toLe_of_lt small']

/-- No identity begins another one. -/
theorem identity_append_inj [LawfulBits F] [LawfulValues F] {left right : RowValue F}
    {rest rest' : Bytes} (short : left.Short) (short' : right.Short)
    (bytes : left.identity ++ rest = right.identity ++ rest') : left.Same right ∧ rest = rest' := by
  cases left <;> cases right <;> simp only [identity, List.cons_append, List.nil_append,
    List.append_assoc, List.cons.injEq] at bytes
  all_goals first | exact absurd bytes.1 (by decide) | obtain ⟨-, bytes⟩ := bytes
  · next left right =>
    obtain ⟨bits, rest⟩ := toLe_append_inj (UInt64.toNat_lt _) (UInt64.toNat_lt _) bytes
    have values : canonical left = canonical right := by
      rw [← LawfulBits.ofBits_toBits (canonical left), UInt64.toNat_inj.mp bits,
        LawfulBits.ofBits_toBits]
    exact ⟨canonical_eq_iff.mp values, rest⟩
  · next left right =>
    obtain ⟨bits, rest⟩ := toLe_append_inj (UInt64.toNat_lt _) (UInt64.toNat_lt _) bytes
    exact ⟨Int64.toBitVec_inj.mp (congrArg UInt64.toBitVec (UInt64.toNat_inj.mp bits)), rest⟩
  · next left right =>
    obtain ⟨lengths, bytes⟩ := toLe_append_inj (short left rfl) (short' right rfl) bytes
    obtain ⟨texts, rest⟩ := List.append_inj bytes lengths
    have read := fromUtf8_utf8 left
    rw [texts, fromUtf8_utf8] at read
    exact ⟨(Option.some.inj read).symm, rest⟩
  · exact ⟨trivial, bytes⟩

end RowValue

/-- The bytes of two rows agree where their values do. -/
theorem identity_eq_iff [LawfulBits F] [LawfulValues F] {left right : Row F}
    (short : ∀ value ∈ left, value.Short) (short' : ∀ value ∈ right, value.Short) :
    left.flatMap RowValue.identity = right.flatMap RowValue.identity ↔ Row.Same left right := by
  constructor
  · intro bytes
    induction left generalizing right with
    | nil =>
      cases right with
      | nil => exact .nil
      | cons value rest => cases value <;> cases bytes
    | cons value rest ih =>
      cases right with
      | nil => cases value <;> cases bytes
      | cons value' rest' =>
        rw [List.flatMap_cons, List.flatMap_cons] at bytes
        obtain ⟨same, bytes⟩ :=
          RowValue.identity_append_inj (short value List.mem_cons_self)
          (short' value' List.mem_cons_self) bytes
        exact .cons same (ih (fun other member => short other (.tail _ member)) (fun other member =>
          short' other (.tail _ member)) bytes)
  · intro same
    induction same with
    | nil => rfl
    | cons head _ ih =>
      rw [List.flatMap_cons, List.flatMap_cons, RowValue.identity_same head,
        ih (fun other member => short other (.tail _ member))
        (fun other member => short' other (.tail _ member))]

/-! ### The rows of an output -/

/-- Every batch is bound to the one schema, and interning refused to grow no dictionary of it. -/
structure QueryOutput.Built (output : QueryOutput F) : Prop where
  binds : ∀ batch ∈ output.batches,
    List.Forall₂ (Column.Binds batch.numRows) output.schema.fields batch.columns
  interned : ∀ batch ∈ output.batches, ∀ column ∈ batch.columns, column.Interned

def QueryOutput.rowAt (output : QueryOutput F) (pick : Nat × Nat) : Row F :=
  (output.batches[pick.1]?).elim [] fun batch => batch.row pick.2

omit [F64 F] in
theorem QueryOutput.mem_positions {output : QueryOutput F} {pick : Nat × Nat} :
    pick ∈ output.positions ↔ ∃ batch, output.batches[pick.1]? = some batch ∧
    pick.2 < batch.numRows := by
  unfold positions
  rw [List.mem_flatMap]
  constructor
  · rintro ⟨⟨batch, index⟩, member, chosen⟩
    obtain ⟨row, inside, rfl⟩ := List.mem_map.mp chosen
    exact ⟨batch, List.mem_zipIdx_iff_getElem?.mp member, List.mem_range.mp inside⟩
  · rintro ⟨batch, found, inside⟩
    exact ⟨(batch, pick.1), List.mem_zipIdx_iff_getElem?.mpr found,
      List.mem_map.mpr ⟨pick.2, List.mem_range.mpr inside, rfl⟩⟩

theorem QueryOutput.rows_eq (output : QueryOutput F) :
    output.rows = output.positions.map output.rowAt := by
  have batches : output.batches = output.batches.zipIdx.map Prod.fst := by rw [List.zipIdx_map_fst]
  unfold rows positions
  rw [List.map_flatMap]
  conv_lhs => rw [batches, List.flatMap_map]
  refine List.flatMap_congr fun pair member => ?_
  have found : output.batches[pair.2]? = some pair.1 := List.mem_zipIdx_iff_getElem?.mp member
  rw [List.map_map, RecordBatch.rows]
  refine List.map_congr_left fun row _ => ?_
  simp only [Function.comp_apply, rowAt, found, Option.elim_some]

theorem cellIdentity_eq (column : Column F)
    (row : Nat) : cellIdentity column row = (cellValue column row).identity := by
  unfold cellIdentity cellValue Column.isValid
  cases column with
  | f64 values validity =>
    cases valid : Bitmap.validAt validity row <;>
      simp [Column.validity, valid, RowValue.identity, canonical]
  | i64 values validity =>
    cases valid : Bitmap.validAt validity row <;> simp [Column.validity, valid, RowValue.identity]
  | key codes validity dictionary =>
    cases valid : Bitmap.validAt validity row <;>
      simp [Column.validity, Column.valueAt, valid, RowValue.identity]

theorem rowIdentity_eq (output : QueryOutput F) (pick : Nat × Nat) :
    rowIdentity output.batches pick = (output.rowAt pick).flatMap RowValue.identity := by
  unfold rowIdentity QueryOutput.rowAt
  cases output.batches[pick.1]? with
  | none => rfl
  | some batch =>
    simp only [Option.elim_some, RecordBatch.row, List.flatMap_map]
    exact List.flatMap_congr fun column _ => cellIdentity_eq column pick.2

/-- A text out of an interned column is shorter than its dictionary's bytes. -/
theorem cellValue_short {column : Column F} (interned : column.Interned)
    (row : Nat) : (cellValue column row).Short := by
  intro text held
  unfold cellValue at held
  split at held
  · cases column with
    | f64 | i64 => cases held
    | key codes validity dictionary =>
      obtain rfl := RowValue.key.inj held
      have bound := interned codes validity dictionary rfl
      unfold Dictionary.value
      rw [List.getD_eq_getElem?_getD]
      cases found : dictionary.values[codes.getD row 0]? with
      | none => decide
      | some text =>
        have part : (utf8 text).length ≤ dictionary.bytes.length := by
          obtain ⟨before, after, split⟩ := List.append_of_mem (List.mem_of_getElem? found)
          rw [Dictionary.bytes, split]
          simp only [List.flatMap_append, List.flatMap_cons, List.length_append]
          omega
        exact part.trans_lt (bound.trans (by norm_num))
  · cases held

namespace QueryOutput.Built

variable {output : QueryOutput F} (built : output.Built)

include built

theorem short (pick : Nat × Nat) : ∀ value ∈ output.rowAt pick, value.Short := by
  intro value member
  unfold rowAt at member
  cases found : output.batches[pick.1]? with
  | none => simp [found] at member
  | some batch =>
    rw [found, Option.elim_some] at member
    obtain ⟨column, held, rfl⟩ := List.mem_map.mp member
    exact cellValue_short (built.interned batch (List.mem_of_getElem? found) column held) pick.2

theorem identity_iff [LawfulBits F] [LawfulValues F] (left right : Nat × Nat) :
    rowIdentity output.batches left = rowIdentity output.batches right ↔ Row.Same
      (output.rowAt left) (output.rowAt right) := by
  rw [rowIdentity_eq, rowIdentity_eq]
  exact identity_eq_iff (built.short left) (built.short right)

end QueryOutput.Built

/-! ### First occurrences -/

section First

variable (identity : Nat × Nat → Bytes)

theorem firstSeen_concat (picks : List (Nat × Nat)) (pick : Nat × Nat) (seen : List Bytes) :
    firstSeen identity (picks ++ [pick]) seen =
      firstSeen identity picks seen ++ if identity pick ∈ seen ∨
      identity pick ∈ picks.map identity then [] else [pick] := by
  induction picks generalizing seen with
  | nil => by_cases old : identity pick ∈ seen <;> simp [firstSeen, old]
  | cons first rest ih =>
    by_cases old : identity first ∈ seen
    · have once : (identity pick ∈ seen ∨ identity pick ∈ (first :: rest).map identity) ↔
          identity pick ∈ seen ∨ identity pick ∈ rest.map identity := by
        rw [List.map_cons, List.mem_cons]
        constructor
        · rintro (before | same | before)
          · exact .inl before
          · exact .inl (same ▸ old)
          · exact .inr before
        · rintro (before | before)
          · exact .inl before
          · exact .inr (.inr before)
      simp only [List.cons_append, firstSeen, old, if_true, ih, once]
    · have once : (identity pick ∈ identity first :: seen ∨ identity pick ∈ rest.map identity) ↔
          identity pick ∈ seen ∨ identity pick ∈ (first :: rest).map identity := by
        simp only [List.map_cons, List.mem_cons]
        tauto
      simp only [List.cons_append, firstSeen, old, if_false, ih, once]

theorem firstSeen_subset (picks : List (Nat × Nat)) (seen : List Bytes) :
    firstSeen identity picks seen ⊆ picks := by
  induction picks generalizing seen with
  | nil => exact List.Subset.refl _
  | cons first rest ih =>
    unfold firstSeen
    split
    · exact List.Subset.trans (ih seen) (List.subset_cons_self _ _)
    · exact List.cons_subset_cons _ (ih _)

end First

/-- A row at the end is a first one unless an earlier row has its values. -/
theorem firsts_concat (rows : List (Row F)) (row : Row F) :
    firsts (rows ++ [row]) = firsts rows ++ if ∃ earlier ∈ rows,
    Row.Same earlier row then [] else [rows.length] := by
  unfold firsts
  rw [List.length_append, List.length_singleton, List.range_succ, List.filter_append]
  have kept (i : Nat) (inside : i < rows.length) : (rows ++ [row]).getD i [] = rows.getD i [] := by
    rw [List.getD_append _ _ _ _ inside]
  have last : (rows ++ [row]).getD rows.length [] = row := by simp [List.getD_eq_getElem?_getD]
  congr 1
  · refine List.filter_congr fun i member => ?_
    have inside := List.mem_range.mp member
    simp only [kept i inside, decide_eq_decide]
    exact forall₂_congr fun j below => by rw [kept j (below.trans inside)]
  · have apart : (∀ j < rows.length,
      ¬ Row.Same ((rows ++ [row]).getD j []) ((rows ++ [row]).getD rows.length [])) ↔
        ¬ ∃ earlier ∈ rows, Row.Same earlier row := by
      rw [last]
      constructor
      · rintro none ⟨earlier, member, same⟩
        obtain ⟨j, inside, rfl⟩ := List.mem_iff_getElem.mp member
        refine none j inside ?_
        rwa [kept j inside, List.getD_eq_getElem _ _ inside]
      · intro none j inside same
        rw [kept j inside, List.getD_eq_getElem _ _ inside] at same
        exact none ⟨_, List.getElem_mem inside, same⟩
    by_cases found : ∃ earlier ∈ rows, Row.Same earlier row
    · rw [if_pos found, List.filter_cons_of_neg (by
          rw [decide_eq_true_iff, apart]
          exact not_not.mpr found), List.filter_nil]
    · rw [if_neg found, List.filter_cons_of_pos (by rw [decide_eq_true_iff, apart]; exact found),
        List.filter_nil]

/-- The picks kept are the places of the first rows. -/
theorem firstSeen_firsts {identity : Nat × Nat → Bytes} {rowAt : Nat × Nat → Row F}
    (tells : ∀ left right, identity left = identity right ↔ Row.Same (rowAt left) (rowAt right))
    (picks : List (Nat × Nat)) :
    firstSeen identity picks [] = (firsts (picks.map rowAt)).map fun i => picks.getD i (0, 0) := by
  induction picks using List.reverseRecOn with
  | nil => rfl
  | append_singleton picks pick ih =>
    have seen : (identity pick ∈ ([] : List Bytes) ∨ identity pick ∈ picks.map identity) ↔
        ∃ earlier ∈ picks.map rowAt, Row.Same earlier (rowAt pick) := by
      constructor
      · rintro (impossible | before)
        · cases impossible
        · obtain ⟨earlier, member, same⟩ := List.mem_map.mp before
          exact ⟨_, List.mem_map_of_mem member, (tells _ _).mp same⟩
      · rintro ⟨row, member, same⟩
        obtain ⟨earlier, held, rfl⟩ := List.mem_map.mp member
        exact .inr (List.mem_map.mpr ⟨earlier, held, (tells _ _).mpr same⟩)
    have kept : (firsts (picks.map rowAt)).map (fun i => (picks ++ [pick]).getD i (0, 0)) =
        (firsts (picks.map rowAt)).map fun i => picks.getD i (0, 0) := by
      refine List.map_congr_left fun i member => ?_
      have inside := List.mem_range.mp (List.mem_of_mem_filter member)
      rw [List.length_map] at inside
      exact List.getD_append _ _ _ _ inside
    rw [firstSeen_concat, ih, List.map_append, List.map_singleton, firsts_concat, List.map_append, kept]
    simp only [seen, List.length_map]
    split
    · rfl
    · simp [List.getD_eq_getElem?_getD]

/-! ### The rows gathered -/

/-- A gathered cell has the value of the cell that it was gathered from. -/
theorem cellValue_gathered {columnType : ColumnType} {column source : Column F} {j row : Nat}
    (typed : column.columnType = columnType)
    (typed' : source.columnType = columnType)
    (gathered : Gathered columnType column j (some (source, row))) :
    cellValue column j = cellValue source row := by
  subst typed
  cases column with
  | f64 values validity =>
    cases source with
    | f64 values' validity' =>
      obtain ⟨valid, value⟩ := gathered
      simp only [Option.any_some, Option.elim_some, Column.f64At] at valid value
      unfold cellValue
      rw [valid]
      simp only [value]
    | i64 | key => cases typed'
  | i64 values validity =>
    cases source with
    | i64 values' validity' =>
      obtain ⟨valid, value⟩ := gathered
      simp only [Option.any_some, Option.elim_some, Column.i64At] at valid value
      unfold cellValue
      rw [valid]
      simp only [value]
    | f64 | key => cases typed'
  | key codes validity dictionary =>
    cases source with
    | key codes' validity' dictionary' =>
      have texts : (if Bitmap.validAt validity
        j then some (dictionary.value (codes.getD j 0)) else none) =
        if Bitmap.validAt validity' row then some (dictionary'.value (codes'.getD row 0))
          else none := gathered
      unfold cellValue Column.isValid Column.validity
      cases own : Bitmap.validAt validity j <;> cases other : Bitmap.validAt validity' row <;>
        simp [own, other] at texts ⊢
      exact texts
    | f64 | i64 => cases typed'

namespace QueryOutput.Built

variable {output : QueryOutput F} (built : output.Built)

include built

omit [F64 F] in
theorem positions_nil (unnamed : output.schema.fields = []) : output.positions = [] := by
  refine List.eq_nil_iff_forall_not_mem.mpr fun pick member => ?_
  obtain ⟨batch, found, inside⟩ := mem_positions.mp member
  have binds := built.binds batch (List.mem_of_getElem? found)
  rw [unnamed, List.forall₂_nil_left_iff] at binds
  simp [RecordBatch.numRows, binds] at inside

theorem rows_takeRows {picks : List (Nat × Nat)} (chosen : picks ⊆ output.positions) :
    (takeRows output.schema output.batches picks).rows = picks.map output.rowAt := by
  by_cases named : output.schema.fields = []
  · obtain rfl : picks = [] := List.subset_nil.mp (built.positions_nil named ▸ chosen)
    simp [RecordBatch.rows, RecordBatch.numRows, takeRows, named]
  · refine List.ext_getElem (by simp [RecordBatch.rows, numRows_takeRows _ _ _ named])
      fun j inside inside' => ?_
    rw [List.length_map] at inside'
    have picked : picks[j] ∈ output.positions := chosen (List.getElem_mem inside')
    obtain ⟨batch, found, here⟩ := mem_positions.mp picked
    have binds := built.binds batch (List.mem_of_getElem? found)
    simp only [RecordBatch.rows, List.getElem_map, List.getElem_range, rowAt, found,
      Option.elim_some, RecordBatch.row]
    refine List.ext_getElem (by simp [takeRows, binds.length_eq]) fun index bound bound' => ?_
    rw [List.length_map] at bound'
    have declared : index < output.schema.fields.length := binds.length_eq ▸ bound'
    rw [List.getElem_map, List.getElem_map]
    simp only [takeRows, List.getElem_map, List.getElem_zipIdx, Nat.zero_add]
    have gathered := @gatherColumn_gathered F _ (output.schema.fields[index]).columnType
      (picks.map fun pick => (output.batches[pick.1]?).map fun source =>
        (source.column index, pick.2)) j (by simpa using inside')
    refine cellValue_gathered (gatherColumn_columnType _ _) (binds.get declared bound').typed ?_
    rw [List.getElem_map] at gathered
    have own : batch.column index = batch.columns[index] := List.getD_eq_getElem _ _ bound'
    simp only [found, Option.map_some, own] at gathered
    exact gathered

end QueryOutput.Built

/-- `DISTINCT` keeps the rows that are the first with their values, and its bytes tell two rows
apart just where their values differ. -/
theorem distinct_firsts [LawfulBits F] [LawfulValues F] {output : QueryOutput F}
    (built : output.Built) :
    (distinctOutput output).rows = (firsts output.rows).map (fun i => output.rows.getD i []) ∧
      ∀ left right, rowIdentity output.batches left = rowIdentity output.batches right ↔ Row.Same
        (output.rowAt left) (output.rowAt right) := by
  refine ⟨?_, built.identity_iff⟩
  show (QueryOutput.takeRows output.schema output.batches
    (firstSeen (rowIdentity output.batches) output.positions [])).rows ++ [] = _
  rw [List.append_nil, built.rows_takeRows (firstSeen_subset _ _ _),
    firstSeen_firsts built.identity_iff, output.rows_eq, List.map_map]
  refine List.map_congr_left fun i member => ?_
  have inside := List.mem_range.mp (List.mem_of_mem_filter member)
  have inside' : i < output.positions.length := by simpa using inside
  rw [Function.comp_apply, List.getD_eq_getElem _ _ inside, List.getD_eq_getElem _ _ inside',
    List.getElem_map]

/-- A zero of each sign, two NaNs and a repeated text across two batches. -/
def repeated : QueryOutput UInt64 where
  schema := ⟨[.new "x" .f64 false, .new "s" .key true]⟩
  batches := [⟨⟨[.new "x" .f64 false, .new "s" .key true]⟩,
      [.f64 [0, 0x7ff8000000000000, 0] none, .key [0, 0, 0] (some [true, true, false]) ⟨["a"], by
        decide⟩]⟩,
    ⟨⟨[.new "x" .f64 false, .new "s" .key true]⟩,
      [.f64 [0x8000000000000000, 0xfff8000000000001] none, .key [1, 1] none ⟨["b", "a"], by decide⟩]⟩]

theorem repeated_built : repeated.Built where
  binds batch member := by
    have either := List.mem_cons.mp member
    rw [List.mem_singleton] at either
    rcases either with rfl | rfl <;>
      exact .cons ⟨rfl, rfl, by simp [Column.validity], by simp⟩
        (.cons ⟨rfl, rfl, by
            simp [Column.validity, Field.new, RecordBatch.numRows, Column.length], by simp⟩ .nil)
  interned batch member := by
    have either := List.mem_cons.mp member
    rw [List.mem_singleton] at either
    rcases either with rfl | rfl <;> simp [Column.Interned] <;> decide

theorem repeated_firsts : (distinctOutput repeated).rows = (firsts repeated.rows).map
      (fun i => repeated.rows.getD i []) ∧
    ∀ left right, rowIdentity repeated.batches left = rowIdentity repeated.batches right ↔ Row.Same
      (repeated.rowAt left) (repeated.rowAt right) :=
  distinct_firsts repeated_built

/-- The second batch has only rows that the first one had. -/
example : firsts repeated.rows = [0, 1, 2] := by decide +kernel

end TallyDB
