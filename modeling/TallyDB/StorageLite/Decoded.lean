import TallyDB.StorageLite.Built

/-!
# What the decoders give

Whatever the bytes, a decoded part fits the length field it was read with. So a segment
round-trips exactly when all its parts do: `Segment.Built.roundTrips_iff`.
-/

namespace TallyDB

open Wire Reader

/-! ### Columns -/

theorem utf8_of_fromUtf8 {bytes : Bytes} {text : String} (decoded : fromUtf8 bytes = some text) :
    utf8 text = bytes := by
  unfold fromUtf8 String.fromUTF8? at decoded
  split at decoded
  · cases decoded
    rfl
  · cases decoded

theorem ofOption_ok {α : Type} {value : Option α} {reason : String} {result : α}
    (given : ofOption value reason = .ok result) :
    value = some result := by
  cases value with
  | none => cases given
  | some value => exact congrArg some (Except.ok.inj given)

theorem require_ok {condition : Bool} {error : FormatError}
    (given : require condition error = .ok ()) : condition = true := by
  unfold require at given
  split at given
  · assumption
  · cases given

theorem fromParts_scale {tag payload scale : UInt8}
    (known : LogicalType.fromParts tag payload = some (.decimal64 scale)) :
    scale ≤ LogicalType.decimal64Precision := by
  unfold LogicalType.fromParts at known
  split at known
  · cases known
  · split at known
    · next fits =>
      cases known
      exact fits.2
    · cases known

theorem decodeField_gives : Gives decodeField Field.Narrow := by
  refine (Gives.word endOfFile 2).bind fun nameLen long =>
    (Gives.take endOfFile nameLen).bind fun nameBytes length => ?_
  have named (reason : String) : Gives (lift (ofOption (fromUtf8 nameBytes) reason)) fun name =>
      (utf8 name).length < 2 ^ 16 := by
    refine .lift fun name decoded => ?_
    rw [utf8_of_fromUtf8 (ofOption_ok decoded), length]
    exact long
  refine (named _).bind fun name narrow => (Gives.any _).bind fun typeTag _ =>
    (Gives.any _).bind fun columnType _ => ?_
  refine (Gives.any _).bind fun nullable _ => (Gives.any _).bind fun tag _ =>
    (Gives.any _).bind fun payload _ => ?_
  dsimp only
  split
  · exact .pure ⟨narrow, by simp [Field.new]⟩
  · have known (reason : String) :
        Gives (lift (ofOption (LogicalType.fromParts tag payload) reason)) fun logical =>
        ∀ scale, logical = .decimal64 scale → scale ≤ LogicalType.decimal64Precision :=
      .lift fun logical decoded scale same => fromParts_scale (same ▸ ofOption_ok decoded)
    refine (known _).bind fun logical bounded => .lift fun field annotated => ?_
    unfold Field.withLogical at annotated
    split at annotated
    · cases annotated
      exact ⟨narrow, fun scale same => bounded scale (Option.some.inj same)⟩
    · cases annotated

theorem decodeValidity_gives (rows : Nat) (name : String) : Gives
      (decodeValidity rows name) fun validity =>
    ∀ bits, validity = some bits → bits.length = rows ∧ bits.asBytes.length < 2 ^ 32 := by
  refine (Gives.any _).bind fun present _ => ?_
  split
  · exact .pure (by simp)
  refine (Gives.word endOfFile 4).bind fun byteLen long => (Gives.any _).bind fun bytes _ => ?_
  have enough (error : FormatError) : Gives (lift (require ((rows + 7) / 8 ≤ byteLen) error))
      fun _ => (rows + 7) / 8 ≤ byteLen :=
    .lift fun _ required => of_decide_eq_true (require_ok required)
  refine (enough _).bind fun _ fits => ?_
  refine (Gives.each fun row => .any (bitOf bytes row)).bind fun bits count =>
    .pure fun other same => ?_
  obtain rfl := Option.some.inj same
  have length := count.1
  rw [List.length_range] at length
  exact ⟨length, by rw [asBytes_length, length]; omega⟩

/-! ### Values -/

theorem recast_ok {ε δ α : Type} {f : ε → δ} {result : Result ε α} {value : α}
    (given : Wire.recast f result = .ok value) :
    result = .ok value := by
  unfold Wire.recast at given
  split at given <;> simp_all

theorem except_bind_ok {ε α β : Type} {first : Except ε α} {next : α → Except ε β} {value : β}
    (given : first >>= next = .ok value) :
    ∃ middle, first = .ok middle ∧ next middle = .ok value := by
  cases first with
  | error fault => cases given
  | ok middle => exact ⟨middle, rfl, given⟩

theorem withCapacity_ok {α : Type} {width count : Nat} {decoded : Result CodecError α} {value : α}
    (given : withCapacity width count decoded = .ok value) : decoded = .ok value := by
  obtain ⟨_, _, given⟩ := except_bind_ok given
  exact recast_ok given

theorem except_map_ok {ε α β : Type} {f : α → β} {result : Except ε α} {value : β}
    (given : f <$> result = .ok value) :
    ∃ original, result = .ok original ∧ f original = value := by
  cases result with
  | error fault => cases given
  | ok original => exact ⟨original, rfl, Except.ok.inj given⟩

theorem rawValues_length {kind name what : String} {bytes : Bytes} {rows width : Nat}
    {values : List Nat}
    (given : rawValues kind name what bytes rows width = .ok values) : values.length = rows := by
  obtain ⟨_, _, given⟩ := except_bind_ok given
  obtain ⟨_, _, given⟩ := except_bind_ok given
  exact ((Gives.any _).times rows).exactly given |>.1

variable {F : Type} [F64Arith F]

theorem f64Values_length {codec : Codec} {name : String} {bytes : Bytes} {rows : Nat} {values : List F}
    (given : f64Values codec name bytes rows = .ok values) : values.length = rows := by
  unfold f64Values at given
  split at given
  · obtain ⟨raw, read, rfl⟩ := except_map_ok given
    rw [List.length_map, rawValues_length read]
  · exact (alpF64_sound rows).gives.exactly (withCapacity_ok given)
  · cases given

theorem i64Values_length {codec : Codec} {name : String} {bytes : Bytes} {rows : Nat}
    {values : List Int64}
    (given : i64Values codec name bytes rows = .ok values) : values.length = rows := by
  unfold i64Values at given
  split at given
  · obtain ⟨raw, read, rfl⟩ := except_map_ok given
    rw [List.length_map, rawValues_length read]
  · exact (((deltaOfDelta_sound rows).mono fun _ _ good => good.1).gives).exactly
      (withCapacity_ok given)
  · exact (forI64_sound rows).gives.exactly (withCapacity_ok given)
  · cases given

theorem keyCodes_length {codec : Codec} {name : String} {bytes : Bytes} {rows : Nat}
    {codes : List UInt32}
    (given : keyCodes codec name bytes rows = .ok codes) : codes.length = rows := by
  unfold keyCodes at given
  split at given
  · exact (forU32_sound rows).gives.exactly (withCapacity_ok given)
  · obtain ⟨raw, read, rfl⟩ := except_map_ok given
    rw [List.length_map, rawValues_length read]
  · cases given

/-- A decoded column is its field's, and its bitmap is the one that was read. -/
theorem decodeValues_gives (rows : Nat) (field : Field) (codec : Codec) (validity : Option Bitmap) :
    Gives (decodeValues (F := F) rows field codec validity) fun column =>
      column.columnType = field.columnType ∧ column.length = rows ∧ column.validity = validity := by
  refine (Gives.any _).bind fun valuesLen _ => (Gives.any _).bind fun bytes _ => ?_
  unfold columnOf
  cases field.columnType with
  | f64 =>
    have count : Gives (lift (f64Values (F := F) codec field.name bytes rows)) fun values =>
        values.length = rows :=
      .lift fun _ given => f64Values_length given
    refine count.bind fun values length => .lift fun column given => ?_
    obtain ⟨_, _, given⟩ := except_bind_ok given
    cases given
    exact ⟨rfl, length, rfl⟩
  | i64 =>
    have count : Gives (lift (i64Values codec field.name bytes rows)) fun values =>
        values.length = rows :=
      .lift fun _ given => i64Values_length given
    refine count.bind fun values length => .lift fun column given => ?_
    obtain ⟨_, _, given⟩ := except_bind_ok given
    cases given
    exact ⟨rfl, length, rfl⟩
  | key =>
    have count : Gives (lift (keyCodes codec field.name bytes rows)) fun codes => codes.length = rows :=
      .lift fun _ given => keyCodes_length given
    refine count.bind fun codes length => (Gives.any _).bind fun dictionary _ =>
      (Gives.any _).bind fun _ _ => .lift fun column given => ?_
    obtain ⟨_, _, given⟩ := except_bind_ok given
    obtain ⟨_, _, given⟩ := except_bind_ok given
    cases given
    exact ⟨rfl, (List.length_map _).trans length, rfl⟩

/-- What holds of each column of a decoded file. -/
structure DecodedColumn (rows : Nat) (part : Field × Column F × Option (ZoneMap F)) : Prop where
  narrow : part.1.Narrow
  typed : part.2.1.columnType = part.1.columnType
  length : part.2.1.length = rows
  bitmap : ∀ bits, part.2.1.validity = some bits → bits.length = rows ∧ bits.asBytes.length < 2 ^ 32

theorem decodeColumn_gives (rows : Nat) : Gives (decodeColumn (F := F) rows) (DecodedColumn rows) := by
  refine decodeField_gives.bind fun field narrow => (Gives.any _).bind fun codecTag _ =>
    (Gives.any _).bind fun codec _ => ?_
  refine (Gives.any _).bind fun zoneMap _ => (decodeValidity_gives rows field.name).bind
    fun validity bitmap => ?_
  refine (decodeValues_gives rows field codec validity).bind fun column held =>
    .pure ⟨narrow, held.1, held.2.1, ?_⟩
  rw [held.2.2]
  exact bitmap

/-! ### The trailer -/

theorem decodeWords_length {bytes : Bytes} {rows : Nat} {values : List Nat}
    (given : decodeWords bytes rows = .ok values) :
    (encodeWords values).length ≤ bytes.length := by
  obtain ⟨raw, read, rfl⟩ := except_map_ok given
  have same : (raw.map fun value => value.toUInt64.toNat).map
      (fun value => (UInt64.ofNat value).toInt64) = raw := by
    rw [List.map_map]
    refine (List.map_congr_left fun value _ => ?_).trans (List.map_id _)
    exact (congrArg UInt64.toInt64 UInt64.ofNat_toNat).trans (Int64.toInt64_toUInt64 value)
  rw [encodeWords, same]
  exact ((deltaOfDelta_sound rows).exactly _ (withCapacity_ok read)).2

/-- A trailer whose sections fit their length fields. -/
def NarrowTrailer (found : SequenceInfo × Option (List Nat)) : Prop :=
  ∀ entry ∈ sequenceSections found.1 ++ killSections found.2, entry.2.length < 2 ^ 32

theorem decodeSequenceSection_narrow {payload : Bytes} {rows : Nat} {sequence : SequenceInfo}
    (short : payload.length < 2 ^ 32)
    (given : decodeSequenceSection payload rows = .ok sequence) :
    ∀ entry ∈ sequenceSections sequence, entry.2.length < 2 ^ 32 := by
  unfold decodeSequenceSection at given
  split at given
  · cases given
  · split at given
    · split at given
      · cases given
        simp [sequenceSections]
      · cases given
    · split at given
      · obtain ⟨values, read, rfl⟩ := except_map_ok given
        have canonical := decodeWords_length read
        simp only [List.length_cons] at short
        simp only [sequenceSections, List.mem_singleton, forall_eq, List.length_cons]
        omega
      · cases given

theorem readSection_gives (rows : Nat) (found : SequenceInfo × Option (List Nat))
    (narrow : NarrowTrailer found) :
    Gives (readSection rows found) NarrowTrailer := by
  refine (Gives.any _).bind fun tag _ => (Gives.word endOfFile 4).bind fun length small => ?_
  refine (Gives.take endOfFile length).bind fun payload long => ?_
  have short : payload.length < 2 ^ 32 := long ▸ small
  have old := List.forall_mem_append.mp narrow
  split
  · have read : Gives (lift (decodeSequenceSection payload rows)) fun sequence =>
        ∀ entry ∈ sequenceSections sequence, entry.2.length < 2 ^ 32 :=
          .lift fun _ => decodeSequenceSection_narrow short
    exact read.bind fun sequence new => .pure (List.forall_mem_append.mpr ⟨new, old.2⟩)
  · split
    · have read : Gives (lift (decodeWords payload rows)) fun kills =>
          (encodeWords kills).length < 2 ^ 32 :=
        .lift fun _ given => Nat.lt_of_le_of_lt (decodeWords_length given) short
      refine read.bind fun kills new => .pure (List.forall_mem_append.mpr ⟨old.1, ?_⟩)
      simpa [killSections] using new
    · exact .pure narrow

theorem readTrailer_gives (version rows : Nat) : Gives (readTrailer version rows) NarrowTrailer := by
  have start : NarrowTrailer (.rowIds, none) := by simp [NarrowTrailer, sequenceSections, killSections]
  unfold readTrailer
  split
  · exact (Gives.any _).bind fun count _ => .change (readSection_gives rows) count start
  · exact .pure start

/-! ### The whole file -/

/-- The parts of a decoded file have the lengths and counts that it could state. -/
structure SegmentParts.Narrow (parts : SegmentParts F) : Prop where
  count : parts.columns.length < 2 ^ 32
  columns : ∃ rows, ∀ part ∈ parts.columns, DecodedColumn rows part
  trailer : NarrowTrailer (parts.sequence, parts.superseded)

theorem readSegmentHeader_gives (payload : Bytes) : Gives (readSegmentHeader payload) fun header =>
      header.columnCount < 2 ^ 32 := by
  refine (Gives.any _).bind fun magic _ => (Gives.any _).bind fun _ _ =>
    (Gives.any _).bind fun version _ => ?_
  refine (Gives.any _).bind fun _ _ => (Gives.any _).bind fun reserved _ =>
    (Gives.any _).bind fun _ _ => ?_
  refine (Gives.any _).bind fun stored _ => (Gives.any _).bind fun _ _ =>
    (Gives.any _).bind fun baseRowId _ => ?_
  refine (Gives.any _).bind fun rowCount _ => (Gives.any _).bind fun orderingKey _ =>
    (Gives.any _).bind fun flags _ => ?_
  exact (Gives.word endOfFile 4).bind fun columnCount small => (Gives.any _).bind fun _ _ => .pure small

theorem segmentParts_gives (payload : Bytes) : Gives
      (segmentParts (F := F) payload) SegmentParts.Narrow := by
  refine (readSegmentHeader_gives payload).bind fun header small => ?_
  refine ((decodeColumn_gives header.rowCount).times header.columnCount).bind fun columns held => ?_
  refine (readTrailer_gives header.version header.rowCount).bind fun trailer narrow =>
    .pure ⟨?_, ⟨header.rowCount, held.2⟩, narrow⟩
  rw [held.1]
  exact small

omit [F64Arith F] in
theorem recordBatch_new_eq {schema : Schema} {columns : List (Column F)} {batch : RecordBatch F}
    (bound : RecordBatch.new schema columns = .ok batch) : batch = ⟨schema, columns⟩ := by
  obtain ⟨_, _, bound⟩ := except_bind_ok bound
  obtain ⟨_, _, bound⟩ := except_bind_ok bound
  obtain ⟨_, _, bound⟩ := except_bind_ok bound
  obtain ⟨_, _, bound⟩ := except_bind_ok bound
  exact (Except.ok.inj bound).symm

/-- Whatever the bytes, a decoded segment is narrow. -/
theorem decodeSegment_narrow {bytes : Bytes} {segment : Segment F}
    (decoded : decodeSegment bytes = .ok segment) : segment.Narrow := by
  unfold decodeSegment at decoded
  split at decoded
  · cases decoded
  next parts rest read =>
    split at decoded
    · obtain ⟨batch, bound, given⟩ := except_bind_ok decoded
      obtain ⟨count, ⟨rows, columns⟩, trailer⟩ := segmentParts_gives _ _ _ _ read
      obtain rfl := recordBatch_new_eq bound
      cases given
      refine ⟨by rwa [List.length_map], fun field member => ?_,
        fun column member bits same => ?_, trailer⟩
      · obtain ⟨part, inside, rfl⟩ := List.mem_map.mp member
        exact (columns part inside).narrow
      · obtain ⟨part, inside, rfl⟩ := List.mem_map.mp member
        exact ((columns part inside).bitmap bits same).2
    · cases decoded

/-- Decoding a segment's file gives the segment back, and encoding that gives the file. -/
def Segment.RoundTrips (segment : Segment F) : Prop :=
  ∃ decoded, decodeSegment (encodeSegment segment) = .ok decoded ∧ decoded = segment ∧
    encodeSegment decoded = encodeSegment segment

/-- A segment round-trips exactly when each part fits the length field that the file has for it. -/
theorem Segment.Built.roundTrips_iff [LawfulBits F] {segment : Segment F} (built : segment.Built) :
    segment.RoundTrips ↔ segment.Narrow := by
  constructor
  · rintro ⟨decoded, read, rfl, -⟩
    exact decodeSegment_narrow read
  · intro narrow
    exact ⟨segment, decode_encodeSegment built.toSealed narrow, rfl, rfl⟩

/-! ### One row under a name -/

def oneRow (name : String) : Segment UInt64 where
  batch := ⟨⟨[.new name .i64 false]⟩, [.i64 [7] none]⟩
  orderingKey := 0
  ordered := true
  baseRowId := 0
  zoneMaps := [some (.i64 7 7)]
  sequence := .rowIds
  superseded := none

theorem oneRow_built {name : String} (fits : (utf8 name).length < 2 ^ 63) : (oneRow name).Built where
  frozen := by
    let buffer : WriteBuffer UInt64 := .empty ⟨[.new name .i64 false]⟩ 0
    exact ⟨buffer.push [.i64 7] rfl, 0, oneRow name, rfl, rfl, rfl⟩
  numbered := ⟨by simp [oneRow], by simp [oneRow], by simp [oneRow]⟩
  interned := by
    simp [oneRow, Column.Interned]
  rows := (by decide : 1 * 8 < 2 ^ 63)
  base := (by decide : 0 < 2 ^ 64)
  file := by
    have values : (encodeDeltaOfDelta [7]).length = 1 := by decide +kernel
    have version : segmentVersion (oneRow name) = 1 := by rw [segmentVersion, if_pos ⟨rfl, rfl⟩]
    rw [encodeSegment, segmentPayload, segmentBody, version, if_neg (show ¬ 1 = 2 by decide)]
    simp only [oneRow, encodeColumns, List.getElem?_cons_zero, Option.join_some, encodeColumn,
      encodeField, Field.new, encodeZoneMap, encodeValidity, encodeValues, Column.validity,
      pushValues, List.length_append, List.length_cons, List.length_nil, toLe_length,
      segmentMagic_length]
    simp only [decide_true, Bool.and_self, if_true, values]
    omega

theorem utf8_replicate (count : Nat) :
    (utf8 (String.ofList (List.replicate count 'a'))).length = count := by
  rw [utf8, String.toByteArray_ofList, Array.length_toList]
  induction count with
  | zero => rfl
  | succ count ih =>
    have one : ['a'].utf8Encode.size = 1 := by
      rw [List.utf8Encode_singleton, List.size_toByteArray, String.length_utf8EncodeChar]
      rfl
    rw [List.replicate_succ, List.utf8Encode_cons]
    have sizes := @ByteArray.size_append ['a'].utf8Encode (List.replicate count 'a').utf8Encode
    rw [one] at sizes
    exact sizes.trans ((congrArg (1 + ·) ih).trans (Nat.add_comm 1 count))

/-- A segment whose column name is longer than its length field can say is refused, or read as
another. -/
theorem long_name_lost : ∃ segment : Segment UInt64, segment.Built ∧ ¬ segment.RoundTrips := by
  let name := String.ofList (List.replicate 65536 'a')
  have length : (utf8 name).length = 65536 := utf8_replicate 65536
  have built : (oneRow name).Built := oneRow_built (by rw [length]; decide)
  refine ⟨oneRow name, built, fun roundTrips => ?_⟩
  obtain ⟨decoded, read, rfl, -⟩ := roundTrips
  have narrow := (decodeSegment_narrow read).fields (.new name .i64 false) List.mem_cons_self
  exact absurd narrow.name (by show ¬ (utf8 name).length < 2 ^ 16; rw [length]; decide)

def tradedSchema : Schema := ⟨[.new "at" .i64 false, .new "price" .f64 true, .new "venue" .key true]⟩

/-- Three rows of them with nulls, the births and the kills of each row listed. -/
def traded : Segment UInt64 where
  batch := ⟨tradedSchema,
    [.i64 [1, 2, 3] none, .f64 [0x3fe0000000000000, 0, 0x3fd0000000000000] (some [true, false, true]),
    .key [0, 1, 0] (some [true, true, false]) ⟨["XNAS", "XLON"], by decide⟩]⟩
  orderingKey := 0
  ordered := true
  baseRowId := 40
  zoneMaps := [some (.i64 1 3), some (.f64 0x3fd0000000000000 0x3fe0000000000000 false), none]
  sequence := .explicit [5, 5, 9]
  superseded := some [9, 7, 9]

theorem traded_built : traded.Built where
  frozen := by
    let buffer : WriteBuffer UInt64 := .empty tradedSchema 0
    let first := buffer.push [.i64 1, .f64 0x3fe0000000000000, .key "XNAS"] rfl
    let second := first.push [.i64 2, .null, .key "XLON"] rfl
    let third := second.push [.i64 3, .f64 0x3fd0000000000000, .null] rfl
    have froze : third.freezeAt 40 =
      .ok { traded with sequence := .rowIds, superseded := none } := by decide +kernel
    exact ⟨third, 40, _, rfl, froze, rfl⟩
  numbered := ⟨by simp [traded], by simp [traded, Segment.numRows, RecordBatch.numRows, Column.length],
    by simp [traded, Segment.numRows, RecordBatch.numRows, Column.length]⟩
  interned := by
    intro column member codes validity dictionary same
    subst same
    simp only [traded, List.mem_cons, reduceCtorEq, Column.key.injEq, List.not_mem_nil, or_false,
      false_or] at member
    rw [member.2.2]
    decide +kernel
  rows := (by decide : 3 * 8 < 2 ^ 63)
  base := (by decide : 40 < 2 ^ 64)
  file := by
    have prices : (encodeAlpF64 (F := UInt64) [0x3fe0000000000000, 0, 0x3fd0000000000000]).length ≤
        25 := by
      rw [encodeAlpF64, encodeChunks_one (by decide) (by decide)]
      exact encodeAlpF64Chunk_length _
    have codes : (encodeForU32 [0, 1, 0]).length = 6 := by
      rw [encodeForU32, encodeChunks_one (by decide) (by decide)]
      decide +kernel
    have clocks : (encodeDeltaOfDelta [1, 2, 3]).length = 3 := by decide +kernel
    have trailer : (encodeSections (trailerSections traded)).length = 21 := by decide +kernel
    have version : segmentVersion traded = 2 := rfl
    rw [encodeSegment, segmentPayload, segmentBody, version, if_pos rfl]
    simp only [List.length_append, toLe_length, segmentMagic_length, trailer]
    have names : (utf8 "at").length = 2 ∧ (utf8 "price").length = 5 ∧
      (utf8 "venue").length = 5 := by decide +kernel
    have dictionary : (encodeDictionary ⟨["XNAS", "XLON"], by decide⟩).length = 28 := by decide +kernel
    have bitmaps : (encodeValidity none).length = 1 ∧
        (encodeValidity (some [true, false, true])).length = 6 ∧
        (encodeValidity (some [true, true, false])).length = 6 := by
      decide +kernel
    simp [traded, tradedSchema, encodeColumns, encodeColumn, encodeField, Field.new, encodeZoneMap,
      encodeValues, pushValues, Column.validity,
      names, codes, clocks, dictionary, bitmaps]
    omega

theorem short_name_kept : traded.RoundTrips := by
  refine traded_built.roundTrips_iff.mpr ⟨by decide, fun field member => ?_,
    fun column member bits same => ?_, by decide +kernel⟩
  · simp only [traded, tradedSchema, List.mem_cons, List.not_mem_nil, or_false] at member
    rcases member with rfl | rfl | rfl <;> exact ⟨by decide +kernel, fun _ none => by cases none⟩
  · simp only [traded, List.mem_cons, List.not_mem_nil, or_false] at member
    rcases member with rfl | rfl | rfl <;> cases same <;> decide +kernel

end TallyDB
