import TallyDB.StorageLite.Freeze
import TallyDB.StorageLite.SegmentFormat

/-!
# Segment files round-trip

Each part of a segment file is read back by its decoder, as long as it fits the width of its
length field.
-/

namespace TallyDB

open Wire Reader

/-! ### Texts and bits -/

theorem fromUtf8_utf8 (text : String) : fromUtf8 (utf8 text) = some text := by
  have same : (⟨(utf8 text).toArray⟩ : ByteArray) = text.toByteArray := by
    simp [utf8]
  rw [fromUtf8, same, String.fromUTF8?, dif_pos text.isValidUTF8]
  rfl

@[simp] theorem asBytes_length (bits : Bitmap) : bits.asBytes.length = (bits.length + 7) / 8 :=
  toLe_length _ _

theorem testBit_ofDigits (bits : List Bool)
    (i : Nat) : (Nat.ofDigits 2 (bits.map Bool.toNat)).testBit i = bits.getD i false := by
  induction bits generalizing i with
  | nil => simp
  | cons bit bits ih =>
    rw [List.map_cons, Nat.ofDigits_cons]
    cases i with
    | zero => cases bit <;> simp [Nat.testBit_zero]
    | succ i =>
      rw [Nat.testBit_succ, show (bit.toNat + 2 * Nat.ofDigits 2 (bits.map Bool.toNat)) / 2 =
          Nat.ofDigits 2 (bits.map Bool.toNat) by
        have := bit.toNat_lt
        omega, ih]
      rfl

theorem ofDigits_bits_lt (bits : List Bool) : Nat.ofDigits 2
      (bits.map Bool.toNat) < 256 ^ ((bits.length + 7) / 8) := by
  have small : ∀ digit ∈ bits.map Bool.toNat, digit < 2 := by
    intro digit member
    obtain ⟨bit, -, rfl⟩ := List.mem_map.mp member
    exact bit.toNat_lt
  refine Nat.lt_of_lt_of_le (Nat.ofDigits_lt_base_pow_length (by decide) small) ?_
  rw [List.length_map, show (256 : Nat) = 2 ^ 8 from rfl, ← Nat.pow_mul]
  exact Nat.pow_le_pow_right (by decide) (by omega)

theorem bitOf_eq {bytes : Bytes} {row : Nat} (inside : row / 8 < bytes.length) :
    bitOf bytes row = pure ((ofLe bytes).testBit row) := by
  have bit : decide (bytes[row / 8].toNat >>> (row % 8) &&& 1 = 1) = (ofLe bytes).testBit row := by
    rw [getElem_ofLe inside, show (256 : Nat) = 2 ^ 8 from rfl, ← Nat.pow_mul, Nat.and_one_is_mod,
      ← Nat.testBit_zero,
      Nat.testBit_shiftRight, Nat.testBit_mod_two_pow, Nat.testBit_div_two_pow, Nat.add_zero,
      decide_eq_true (Nat.mod_lt row (by decide)), Bool.true_and, Nat.mod_add_div]
  rw [bitOf, index, List.getElem?_eq_getElem inside, ← bit]
  rfl

theorem each_bitOf_reads (bits : Bitmap) : Reads
      (each (bitOf bits.asBytes) (List.range bits.length)) [] bits := by
  have one (row : Nat) (member : row ∈ List.range bits.length) : Reads (bitOf bits.asBytes (id row))
      [] (bits.getD row false) := by
    rw [List.mem_range] at member
    rw [id, bitOf_eq (by rw [asBytes_length]; omega), Bitmap.asBytes,
      ofLe_toLe_of_lt (ofDigits_bits_lt bits), testBit_ofDigits]
    exact .pure _
  have all := Reads.each one
  rw [List.map_id] at all
  refine all.congr (by simp) (List.ext_getElem (by simp) fun i inside inside' => ?_)
  rw [List.getElem_map, List.getElem_range, List.getD_eq_getElem?_getD,
    List.getElem?_eq_getElem inside', Option.getD_some]

/-! ### Fields -/

/-- A name whose length fits its field, and an annotation that the registry knows. -/
structure Field.Narrow (field : Field) : Prop where
  name : (utf8 field.name).length < 2 ^ 16
  scale : ∀ scale, field.logical = some (.decimal64 scale) → scale ≤ LogicalType.decimal64Precision

theorem readByte (value : UInt8) : Reads (byte endOfFile) [value] value := .byte _ _

theorem decodeField_reads {field : Field} (narrow : field.Narrow) : Reads decodeField
      (encodeField field) field := by
  obtain ⟨name, columnType, nullable, logical, applies⟩ := field
  have length : (utf8 name).length < 256 ^ 2 := narrow.name
  refine (Reads.word _ length).bind ((Reads.take _ (utf8 name)).bind ?_)
  refine (Reads.lift (show _ = Except.ok name by rw [fromUtf8_utf8]; rfl)).bind ?_
  refine (readByte columnType.tag).bind ?_
  refine (Reads.lift (show _ = Except.ok columnType by rw [ColumnType.fromTag_tag]; rfl)).bind ?_
  refine (readByte (if nullable then 1 else 0)).bind ?_
  have same : decide ((if nullable then 1 else 0 : UInt8) ≠ 0) = nullable := by
    cases nullable <;> rfl
  cases logical with
  | none =>
    refine (readByte 0).bind ((readByte 0).bind ?_)
    rw [if_pos rfl, same]
    exact .pure _
  | some annotation =>
    refine (readByte annotation.tag).bind ((readByte annotation.payload).bind ?_)
    have known : LogicalType.fromParts annotation.tag annotation.payload = some annotation := by
      cases annotation with
      | timestampNs => rfl
      | decimal64 scale =>
          exact (if_neg (show (2 : UInt8) ≠ 1 by decide)).trans (if_pos ⟨rfl, narrow.scale scale rfl⟩)
    have tagged : annotation.tag ≠ 0 := by
      cases annotation with
      | timestampNs => decide
      | decimal64 scale => exact (by decide : (2 : UInt8) ≠ 0)
    rw [if_neg tagged, same]
    refine .congr (.bind (.lift (show _ = Except.ok annotation by rw [known]; rfl)) (.lift ?_)) rfl rfl
    exact dif_pos (applies annotation rfl)

/-! ### Zone maps -/

def ZoneMap.Fits {F : Type} : ColumnType → ZoneMap F → Prop
  | .f64, .f64 _ _ _ => True
  | .i64, .i64 _ _ => True
  | _, _ => False

variable {F : Type} [F64Arith F] [LawfulBits F]

theorem readBits64_reads (bits : UInt64) : Reads readBits64 (toLe 8 bits.toNat) bits := by
  have reads := (Reads.word endOfFile (show _ < 256 ^ 8 from bits.toNat_lt)).map UInt64.ofNat
  rwa [UInt64.ofNat_toNat] at reads

theorem decodeZoneMap_reads {columnType : ColumnType} {zoneMap : Option (ZoneMap F)} (name : String)
    (fits : ∀ map, zoneMap = some map → map.Fits columnType) :
    Reads (decodeZoneMap columnType name) (encodeZoneMap zoneMap) zoneMap := by
  cases zoneMap with
  | none =>
    refine (readByte 0).bind ((Reads.lift rfl).bind ?_)
    rw [if_pos (show (0 : UInt8) &&& 1 = 0 from rfl)]
    exact .pure _
  | some map =>
    have fits := fits map rfl
    cases map with
    | f64 min max hasNan =>
      cases columnType with
      | f64 =>
        cases hasNan with
        | false =>
          refine (readByte 1).bind ((Reads.lift rfl).bind ?_)
          rw [if_neg (by decide)]
          refine (readBits64_reads (F64.toBits min)).bind
            (.congr ((readBits64_reads (F64.toBits max)).finish _) rfl ?_)
          rw [LawfulBits.ofBits_toBits, LawfulBits.ofBits_toBits]
          rfl
        | true =>
          refine (readByte 3).bind ((Reads.lift rfl).bind ?_)
          rw [if_neg (by decide)]
          refine (readBits64_reads (F64.toBits min)).bind
            (.congr ((readBits64_reads (F64.toBits max)).finish _) rfl ?_)
          rw [LawfulBits.ofBits_toBits, LawfulBits.ofBits_toBits]
          rfl
      | i64 => exact fits.elim
      | key => exact fits.elim
    | i64 min max =>
      cases columnType with
      | i64 =>
        refine (readByte 1).bind ((Reads.lift rfl).bind ?_)
        rw [if_neg (by decide)]
        refine (readBits64_reads min.toUInt64).bind
          (.congr ((readBits64_reads max.toUInt64).finish _) rfl ?_)
        rw [Int64.toInt64_toUInt64, Int64.toInt64_toUInt64]
      | f64 => exact fits.elim
      | key => exact fits.elim

/-! ### Bitmaps -/

theorem decodeValidity_reads {rows : Nat} {validity : Option Bitmap} (name : String)
    (fits : ∀ bits, validity = some bits → bits.length = rows ∧ bits.asBytes.length < 2 ^ 32) :
    Reads (decodeValidity rows name) (encodeValidity validity) validity := by
  cases validity with
  | none =>
    refine (readByte 0).bind ?_
    rw [if_pos rfl]
    exact .pure _
  | some bits =>
    obtain ⟨rfl, narrow⟩ := fits bits rfl
    refine (readByte 1).bind ?_
    rw [if_neg (by decide)]
    refine (Reads.word _ (show _ < 256 ^ 4 from narrow)).bind ?_
    refine .congr ((Reads.take _ bits.asBytes).bind ?_) (List.append_nil _) rfl
    refine (Reads.lift (show _ = Except.ok () from if_pos (by simp))).bind ?_
    exact (each_bitOf_reads bits).finish some

/-! ### Dictionaries -/

theorem offsetsFrom_length (start : Nat) (texts : List String) :
    (Dictionary.offsetsFrom start texts).length = texts.length + 1 := by
  induction texts generalizing start with
  | nil => rfl
  | cons text texts ih => rw [Dictionary.offsetsFrom, List.length_cons, ih, List.length_cons]

theorem offsetsFrom_le {start offset : Nat} {texts : List String}
    (member : offset ∈ Dictionary.offsetsFrom start texts) :
    offset ≤ start + (texts.flatMap utf8).length := by
  induction texts generalizing start with
  | nil => simp_all [Dictionary.offsetsFrom]
  | cons text texts ih =>
    rw [List.flatMap_cons, List.length_append]
    rcases List.mem_cons.mp member with rfl | member
    · omega
    · have := ih member
      omega

theorem Dictionary.ext_values {left right : Dictionary} (same : left.values = right.values) :
    left = right := by
  cases left
  cases right
  cases same
  rfl

theorem internChecked_new {dictionary : Dictionary} {text : String} (unseen : text ∉ dictionary.values)
    (count : dictionary.values.length < 2 ^ 32)
    (size : dictionary.bytes.length + (utf8 text).length < 2 ^ 31) :
    ∃ grown, dictionary.internChecked text = .ok (dictionary.values.length, grown) ∧
    grown.values = dictionary.values ++ [text] := by
  refine ⟨(dictionary.intern text).2, ?_, by rw [Dictionary.intern, dif_neg unseen]⟩
  rw [Dictionary.internChecked, if_pos unseen, check, decide_eq_true count, check, decide_eq_true size]
  simp [bind, Except.bind, pure, Except.pure, Dictionary.intern, unseen]

theorem internSpans_ok (name : String) {bytes : Bytes} {rest : List String} {dictionary : Dictionary}
    (distinct : (dictionary.values ++ rest).Nodup)
    (whole : bytes = (dictionary.values ++ rest).flatMap utf8)
    (count : (dictionary.values ++ rest).length < 2 ^ 32) (size : bytes.length < 2 ^ 31) :
    ∃ final, internSpans name bytes
      ((Dictionary.offsetsFrom dictionary.bytes.length rest).map Int.ofNat) dictionary = .ok final ∧
      final.values = dictionary.values ++ rest := by
  induction rest generalizing dictionary with
  | nil => exact ⟨dictionary, rfl, (List.append_nil _).symm⟩
  | cons text rest ih =>
    have unseen : text ∉ dictionary.values := fun member =>
      (List.nodup_append.mp distinct).2.2 text member text List.mem_cons_self rfl
    have split_ : bytes = dictionary.bytes ++ (utf8 text ++ rest.flatMap utf8) := by
      rw [whole, List.flatMap_append, List.flatMap_cons]
      rfl
    have total := congrArg List.length split_
    rw [List.length_append, List.length_append] at total
    rw [List.length_append, List.length_cons] at count
    obtain ⟨grown, interned, values⟩ := internChecked_new unseen (by omega) (by omega)
    have next : grown.values ++ rest = dictionary.values ++ text :: rest := by
      rw [values, List.append_assoc]
      rfl
    have grown_bytes : grown.bytes.length = dictionary.bytes.length + (utf8 text).length := by
      rw [Dictionary.bytes, values, List.flatMap_append, List.length_append]
      simp [Dictionary.bytes]
    obtain ⟨final, spans, final_values⟩ := @ih grown (next ▸ distinct) (next ▸ whole) (by
      rw [next, List.length_append, List.length_cons]
      exact count)
    rw [grown_bytes] at spans
    refine ⟨final, ?_, final_values.trans next⟩
    obtain ⟨offsets, same⟩ : ∃ offsets,
      Dictionary.offsetsFrom (dictionary.bytes.length + (utf8 text).length) rest =
        (dictionary.bytes.length + (utf8 text).length) :: offsets := by
      cases rest <;> exact ⟨_, rfl⟩
    have span : ((bytes.take (dictionary.bytes.length + (utf8 text).length)).drop
        dictionary.bytes.length) = utf8 text := by
      rw [split_, ← List.append_assoc, ← List.length_append, List.take_left, List.drop_left]
    rw [same] at spans
    rw [Dictionary.offsetsFrom, same, List.map_cons, List.map_cons, internSpans, require,
      if_pos (by simp; omega)]
    simp only [bind, Except.bind, Int.ofNat_eq_natCast, Int.toNat_natCast, span, fromUtf8_utf8,
      ofOption, interned, values, require]
    rw [if_pos (by simp)]
    exact spans

theorem decodeDictionary_reads (name : String) {dictionary : Dictionary}
    (count : dictionary.values.length < 2 ^ 32)
    (size : dictionary.bytes.length < 2 ^ 31) : Reads (decodeDictionary name)
      (encodeDictionary dictionary) dictionary := by
  refine (Reads.word _ (show _ < 256 ^ 4 from count)).bind ?_
  have offsets : Reads (times (signedWord endOfFile 4) (dictionary.values.length + 1))
    (dictionary.offsets.flatMap (toLe 4))
      (dictionary.offsets.map Int.ofNat) := by
    have one (offset : Nat) (member : offset ∈ dictionary.offsets) :
        Reads (signedWord endOfFile 4) (toLe 4 offset) (Int.ofNat offset) := by
      have bound := offsetsFrom_le member
      rw [Nat.zero_add] at bound
      exact .signedWord _ (Nat.lt_of_le_of_lt bound size)
    rw [← offsetsFrom_length 0]
    exact .times_map one
  refine offsets.bind ((Reads.word _ (show _ < 256 ^ 4 by omega)).bind ?_)
  refine .congr ((Reads.take _ dictionary.bytes).bind (.lift ?_)) (List.append_nil _) rfl
  obtain ⟨final, spans, values⟩ :=
    @internSpans_ok name dictionary.bytes dictionary.values .empty dictionary.distinct rfl count size
  obtain rfl : final = dictionary := Dictionary.ext_values values
  exact spans

/-! ### Columns -/

/-- A column that agrees with its field and the row count. -/
structure Column.Binds (rows : Nat) (field : Field) (column : Column F) : Prop where
  typed : column.columnType = field.columnType
  length : column.length = rows
  validity : ∀ bits, column.validity = some bits → bits.length = rows ∧ field.nullable = true
  codes : ∀ codes validity dictionary, column = .key codes validity dictionary → ∀ code ∈ codes,
    code < dictionary.values.length

/-- What holds of each dictionary that interning did not refuse to grow. -/
def Column.Interned (column : Column F) : Prop :=
  ∀ codes validity dictionary, column = .key codes validity dictionary →
    dictionary.bytes.length < 2 ^ 31

/-- Distinct texts are no more than their bytes and the empty text. -/
theorem Dictionary.count_le (dictionary : Dictionary) :
    dictionary.values.length ≤ dictionary.bytes.length + 1 := by
  have count (texts : List String) (distinct : texts.Nodup) : texts.length ≤
      (texts.flatMap utf8).length + if "" ∈ texts then 1 else 0 := by
    induction texts with
    | nil => simp
    | cons text texts ih =>
      obtain ⟨unseen, distinct⟩ := List.nodup_cons.mp distinct
      have rest := ih distinct
      rw [List.flatMap_cons, List.length_append, List.length_cons]
      by_cases empty : text = ""
      · subst empty
        rw [if_neg unseen] at rest
        rw [if_pos List.mem_cons_self]
        omega
      · have some : 0 < (utf8 text).length := by
          refine List.length_pos_of_ne_nil fun nothing => empty ?_
          have read := fromUtf8_utf8 text
          rw [nothing] at read
          exact (Option.some.inj read).symm
        have more : (if "" ∈ texts then 1 else 0) ≤ if "" ∈ text :: texts then 1 else 0 := by
          split
          · next member => rw [if_pos (List.mem_cons_of_mem _ member)]
          · omega
        omega
  have bound := count dictionary.values dictionary.distinct
  have one : (if "" ∈ dictionary.values then 1 else 0) ≤ 1 := by split <;> omega
  exact Nat.le_trans bound (Nat.add_le_add_left one _)

theorem checkCodes_ok (name : String) {dictionary : Dictionary} {row : Nat} {codes : List UInt32}
    (assigned : ∀ code ∈ codes, code.toNat < dictionary.values.length) :
    checkCodes name dictionary row codes = .ok () := by
  induction codes generalizing row with
  | nil => rfl
  | cons code codes ih =>
    have first := assigned code List.mem_cons_self
    rw [checkCodes, require, if_pos (by simp [first])]
    exact ih fun other member => assigned other (List.mem_cons_of_mem _ member)

theorem validity_length {rows : Nat} {validity : Option Bitmap}
    (lengths : ∀ bits, validity = some bits → bits.length = rows) :
    (validity.elim true fun bits => decide (bits.length = rows)) = true := by
  cases validity with
  | none => rfl
  | some bits => exact decide_eq_true (lengths bits rfl)

/-- A column's values come back when their bytes are counted in 64 bits. -/
theorem decodeValues_reads {rows : Nat} {field : Field} {column : Column F}
    (ordered isOrderingKey : Bool)
    (binds : column.Binds rows field) (interned : column.Interned) (fits : rows * 8 < 2 ^ 63)
    (short : (encodeValues ordered isOrderingKey column).length < 2 ^ 64) :
    Reads (decodeValues rows field (writerCodec ordered column isOrderingKey) column.validity)
      (encodeValues ordered isOrderingKey column) column := by
  obtain ⟨name, columnType, nullable, logical, applies⟩ := field
  obtain ⟨typed, rfl, validity, codes_⟩ := binds
  have lengths := validity_length fun bits same => (validity bits same).1
  cases column with
  | f64 values bits =>
    obtain rfl : ColumnType.f64 = columnType := typed
    simp only [encodeValues, pushValues, List.length_append, toLe_length] at short ⊢
    refine (Reads.word _ (show _ < 256 ^ 8 by omega)).bind
      (.congr ((Reads.take _ (encodeAlpF64 values)).bind ?_) (List.append_nil _) rfl)
    refine (Reads.lift (show _ = Except.ok values from ?_)).bind (.lift ?_)
    · rw [writerCodec, f64Values, withCapacity_fits fits, Column.length, decode_encodeAlpF64]
      rfl
    · rw [newF64Column, check]
      exact congrArg (Except.bind · _) (if_pos lengths)
  | i64 values bits =>
    obtain rfl : ColumnType.i64 = columnType := typed
    simp only [encodeValues, pushValues, List.length_append, toLe_length] at short ⊢
    refine (Reads.word _ (show _ < 256 ^ 8 by omega)).bind
      (.congr ((Reads.take _ _).bind ?_) (List.append_nil _) rfl)
    refine (Reads.lift (show _ = Except.ok values from ?_)).bind (.lift ?_)
    · rw [writerCodec]
      split
      · rw [i64Values, withCapacity_fits fits, Column.length, decode_encodeDeltaOfDelta]
        rfl
      · rw [i64Values, withCapacity_fits fits, Column.length, decodeForI64,
          (forI64_reads values).exactly]
        rfl
    · rw [newI64Column, check]
      exact congrArg (Except.bind · _) (if_pos lengths)
  | key codes bits dictionary =>
    obtain rfl : ColumnType.key = columnType := typed
    have size := interned codes bits dictionary rfl
    have count := dictionary.count_le
    have assigned := codes_ codes bits dictionary rfl
    simp only [encodeValues, pushValues, List.length_append, toLe_length] at short ⊢
    rw [List.append_assoc]
    refine (Reads.word _ (show _ < 256 ^ 8 by omega)).bind
      ((Reads.take _ (encodeForU32 (codes.map UInt32.ofNat))).bind ?_)
    refine (Reads.lift (show _ = Except.ok (codes.map UInt32.ofNat) from ?_)).bind ?_
    · have reads := forU32_reads (codes.map UInt32.ofNat)
      rw [List.length_map] at reads
      rw [writerCodec, keyCodes, withCapacity_fits (by omega), Column.length,
        decodeForU32, reads.exactly]
      rfl
    have narrow (code : Nat) (member : code ∈ codes) : (UInt32.ofNat code).toNat = code := by
      have := assigned code member
      exact UInt32.toNat_ofNat_of_lt' (show code < 2 ^ 32 by omega)
    have inside (code : UInt32) (member : code ∈ codes.map UInt32.ofNat) :
        code.toNat < dictionary.values.length := by
      obtain ⟨original, inside, rfl⟩ := List.mem_map.mp member
      rw [narrow original inside]
      exact assigned original inside
    refine .congr ((decodeDictionary_reads name (by omega) size).bind ?_) (List.append_nil _) rfl
    refine .congr (.bind (.lift (show _ = Except.ok () from checkCodes_ok name inside)) (.lift ?_))
      rfl rfl
    have same : (codes.map UInt32.ofNat).map UInt32.toNat = codes := by
      rw [List.map_map]
      exact (List.map_congr_left narrow).trans (List.map_id _)
    rw [newKeyColumn, List.length_map, check, check, List.all_eq_true.mpr fun code member =>
      decide_eq_true (inside code member), same]
    exact congrArg (Except.bind · _) (if_pos lengths)

omit [LawfulBits F] in
theorem computeZoneMap_fits (column : Column F) (map : ZoneMap F)
    (computed : computeZoneMap column = some map) :
    map.Fits column.columnType := by
  cases column with
  | f64 values bits =>
    simp only [computeZoneMap] at computed
    split at computed
    · cases computed
      trivial
    · cases computed
      trivial
    · cases computed
  | i64 values bits =>
    obtain ⟨range, -, rfl⟩ := Option.map_eq_some_iff.mp computed
    trivial
  | key codes bits dictionary => cases computed

theorem decodeColumn_reads {rows : Nat} {field : Field} {column : Column F}
    (ordered isOrderingKey : Bool)
    (binds : column.Binds rows field) (interned : column.Interned) (fits : rows * 8 < 2 ^ 63)
    (narrow : field.Narrow)
    (bitmap : ∀ bits, column.validity = some bits → bits.asBytes.length < 2 ^ 32)
    (short : (encodeColumn ordered field column isOrderingKey (computeZoneMap column)).length < 2 ^
      64) :
    Reads (decodeColumn rows) (encodeColumn ordered field column isOrderingKey (computeZoneMap column))
      (field, column, computeZoneMap column) := by
  simp only [encodeColumn, List.length_append, List.length_cons] at short
  refine (decodeField_reads narrow).bind ((readByte _).bind ?_)
  refine (Reads.lift (show _ = Except.ok (writerCodec ordered column isOrderingKey) by
      rw [Codec.fromTag_tag]
      rfl)).bind ?_
  refine (decodeZoneMap_reads field.name fun map computed => ?_).bind ?_
  · rw [← binds.typed]
    exact computeZoneMap_fits column map computed
  refine (decodeValidity_reads field.name fun bits same =>
    ⟨(binds.validity bits same).1, bitmap bits same⟩).bind ?_
  exact (decodeValues_reads ordered isOrderingKey binds interned fits (by omega)).finish _

theorem decodeColumns_reads {rows index : Nat} {segment : Segment F} {fields : List Field}
    {columns : List (Column F)}
    (maps : segment.zoneMaps.drop index = columns.map computeZoneMap)
    (binds : List.Forall₂ (Column.Binds rows) fields columns)
    (interned : ∀ column ∈ columns, column.Interned) (fits : rows * 8 < 2 ^ 63)
    (narrow : ∀ field ∈ fields, field.Narrow)
    (bitmaps : ∀ column ∈ columns, ∀ bits, column.validity = some bits → bits.asBytes.length < 2 ^ 32)
    (short : (encodeColumns segment index fields columns).length < 2 ^ 64) :
    Reads (times (decodeColumn rows) fields.length) (encodeColumns segment index fields columns)
      (fields.zip (columns.map fun column => (column, computeZoneMap column))) := by
  induction binds generalizing index with
  | nil => exact .pure []
  | @cons field column fields columns head rest ih =>
    have here : segment.zoneMaps[index]?.join = computeZoneMap column := by
      have first := congrArg (·[0]?) maps
      simp only [List.getElem?_drop, Nat.add_zero, List.map_cons, List.getElem?_cons_zero] at first
      rw [first]
      rfl
    have later : segment.zoneMaps.drop (index + 1) = columns.map computeZoneMap := by
      rw [← List.tail_drop, maps]
      rfl
    simp only [encodeColumns, List.length_append, here] at short ⊢
    refine (decodeColumn_reads _ _ head (interned column List.mem_cons_self) fits
      (narrow field List.mem_cons_self)
      (bitmaps column List.mem_cons_self) (by omega)).bind ?_
    exact (ih later (fun other member => interned other (List.mem_cons_of_mem _ member))
      (fun other member => narrow other (List.mem_cons_of_mem _ member))
      (fun other member => bitmaps other (List.mem_cons_of_mem _ member)) (by omega)).finish (_ :: ·)

/-! ### The trailer -/

theorem decode_encodeWords {values : List Nat} (fits : values.length * 8 < 2 ^ 63)
    (small : ∀ value ∈ values, value < 2 ^ 64) :
    decodeWords (encodeWords values) values.length = .ok values := by
  have decoded := decode_encodeDeltaOfDelta (values.map fun value => (UInt64.ofNat value).toInt64)
  rw [List.length_map] at decoded
  rw [decodeWords, withCapacity_fits fits, encodeWords, decoded]
  refine congrArg Except.ok (List.map_map.trans ?_)
  refine (List.map_congr_left fun value member => ?_).trans (List.map_id _)
  exact (congrArg UInt64.toNat (UInt64.toUInt64_toInt64 _)).trans
    (UInt64.toNat_ofNat_of_lt' (small value member))

theorem readSection_reads {rows tag : Nat} {payload : Bytes}
    {found found' : SequenceInfo × Option (List Nat)} (known : tag < 2 ^ 16)
    (short : payload.length < 2 ^ 32)
    (reads : (if tag = 1 then do
        let sequence ← lift (decodeSequenceSection payload rows)
        return (sequence, found.2)
      else if tag = 2 then do
        let kills ← lift (decodeWords payload rows)
        return (found.1, some kills)
      else return found : FormatReader _) = pure found') :
    Reads (readSection rows found) (toLe 2 tag ++ (toLe 4 payload.length ++ payload)) found' := by
  refine (Reads.word _ (show _ < 256 ^ 2 from known)).bind
    ((Reads.word _ (show _ < 256 ^ 4 from short)).bind ?_)
  refine .congr ((Reads.take _ payload).bind ?_) (List.append_nil _) rfl
  rw [reads]
  exact .pure found'

theorem readSequence_reads {rows : Nat} {payload : Bytes} {sequence : SequenceInfo}
    (found : SequenceInfo × Option (List Nat))
    (short : payload.length < 2 ^ 32) (decoded : decodeSequenceSection payload rows = .ok sequence) :
    Reads (readSection rows found) (toLe 2 1 ++ (toLe 4 payload.length ++ payload))
      (sequence, found.2) := by
  refine readSection_reads (by decide) short ?_
  rw [if_pos rfl, decoded]
  rfl

theorem readKills_reads {rows : Nat} {payload : Bytes} {kills : List Nat}
    (found : SequenceInfo × Option (List Nat))
    (short : payload.length < 2 ^ 32) (decoded : decodeWords payload rows = .ok kills) :
    Reads (readSection rows found) (toLe 2 2 ++ (toLe 4 payload.length ++ payload))
      (found.1, some kills) := by
  refine readSection_reads (by decide) short ?_
  rw [if_neg (by decide), if_pos rfl, decoded]
  rfl

structure Segment.Numbered {F : Type} (segment : Segment F) : Prop where
  base : ∀ base, segment.sequence = .contiguous base → base < 2 ^ 64
  births : ∀ values, segment.sequence = .explicit values → values.length = segment.numRows ∧
    ∀ value ∈ values, value < 2 ^ 64
  kills : ∀ kills, segment.superseded = some kills → kills.length = segment.numRows ∧
    ∀ kill ∈ kills, kill < 2 ^ 64

omit [F64Arith F] [LawfulBits F] in
theorem sequenceSections_reads {segment : Segment F} (numbered : segment.Numbered)
    (fits : segment.numRows * 8 < 2 ^ 63)
    (short : ∀ entry ∈ sequenceSections segment.sequence, entry.2.length < 2 ^ 32) :
    Reads (change (readSection segment.numRows) (sequenceSections segment.sequence).length
      (.rowIds, none))
      ((sequenceSections segment.sequence).flatMap encodeSection) (segment.sequence, none) := by
  cases same : segment.sequence with
  | rowIds => exact .pure _
  | contiguous base =>
    rw [same] at short
    have decoded : decodeSequenceSection (1 :: toLe 8 base) segment.numRows =
        .ok (.contiguous base) := by
      rw [decodeSequenceSection, if_pos rfl, if_pos (toLe_length _ _),
        ofLe_toLe_of_lt (numbered.base base same)]
    exact (readSequence_reads _ (short _ List.mem_cons_self) decoded).bind (.pure _)
  | explicit values =>
    rw [same] at short
    obtain ⟨count, small⟩ := numbered.births values same
    have decoded : decodeSequenceSection (2 :: encodeWords values) segment.numRows =
        .ok (.explicit values) := by
      rw [decodeSequenceSection, if_neg (by decide), if_pos rfl, ← count,
        decode_encodeWords (count ▸ fits) small]
      rfl
    exact (readSequence_reads _ (short _ List.mem_cons_self) decoded).bind (.pure _)

omit [F64Arith F] [LawfulBits F] in
theorem killSections_reads {segment : Segment F} (numbered : segment.Numbered)
    (fits : segment.numRows * 8 < 2 ^ 63)
    (short : ∀ entry ∈ killSections segment.superseded, entry.2.length < 2 ^ 32)
    (sequence : SequenceInfo) :
    Reads (change (readSection segment.numRows) (killSections segment.superseded).length
      (sequence, none))
      ((killSections segment.superseded).flatMap encodeSection) (sequence, segment.superseded) := by
  cases same : segment.superseded with
  | none => exact .pure _
  | some kills =>
    rw [same] at short
    obtain ⟨count, small⟩ := numbered.kills kills same
    have decoded : decodeWords (encodeWords kills) segment.numRows = .ok kills := by
      rw [← count, decode_encodeWords (count ▸ fits) small]
    exact (readKills_reads (sequence, none) (short _ List.mem_cons_self) decoded).bind (.pure _)

omit [F64Arith F] [LawfulBits F] in
theorem trailer_reads {segment : Segment F} (numbered : segment.Numbered)
    (fits : segment.numRows * 8 < 2 ^ 63)
    (short : ∀ entry ∈ trailerSections segment, entry.2.length < 2 ^ 32) :
    Reads (readTrailer (segmentVersion segment) segment.numRows)
      (if segmentVersion segment = 2 then encodeSections (trailerSections segment) else [])
      (segment.sequence, segment.superseded) := by
  have sequence := sequenceSections_reads numbered fits fun entry member =>
    short entry (List.mem_append_left _ member)
  have kills := killSections_reads numbered fits
    (fun entry member => short entry (List.mem_append_right _ member)) segment.sequence
  have both := sequence.change_append kills
  rw [← List.length_append, ← List.flatMap_append] at both
  by_cases plain : segment.sequence = .rowIds ∧ segment.superseded = none
  · rw [segmentVersion, if_pos plain, readTrailer, if_neg (by decide), if_neg (by decide),
      plain.1, plain.2]
    exact .pure _
  · rw [segmentVersion, if_neg plain, readTrailer, if_pos rfl, if_pos rfl]
    have few : (trailerSections segment).length < 256 ^ 2 := by
      rw [trailerSections, List.length_append]
      have : (sequenceSections segment.sequence).length ≤ 1 := by
        cases segment.sequence <;> simp [sequenceSections]
      have : (killSections segment.superseded).length ≤ 1 := by
        cases segment.superseded <;> simp [killSections]
      omega
    exact (Reads.word _ few).bind both

/-! ### Segments -/

/-- A segment as the write path builds it, within the bounds of its machine words. -/
structure Segment.Sealed (segment : Segment F) : Prop where
  binds : List.Forall₂ (Column.Binds segment.numRows) segment.batch.schema.fields segment.batch.columns
  keyed : segment.orderingKey < segment.batch.schema.fields.length
  maps : segment.zoneMaps = segment.batch.columns.map computeZoneMap
  numbered : segment.Numbered
  interned : ∀ column ∈ segment.batch.columns, column.Interned
  /-- A buffer of the rows' keys fits memory. -/
  rows : segment.numRows * 8 < 2 ^ 63
  base : segment.baseRowId < 2 ^ 64
  file : (encodeSegment segment).length < 2 ^ 64

/-- Every part fits the length field that the file has for it. -/
structure Segment.Narrow (segment : Segment F) : Prop where
  count : segment.batch.schema.fields.length < 2 ^ 32
  fields : ∀ field ∈ segment.batch.schema.fields, field.Narrow
  bitmaps : ∀ column ∈ segment.batch.columns, ∀ bits, column.validity = some bits →
    bits.asBytes.length < 2 ^ 32
  trailer : ∀ entry ∈ trailerSections segment, entry.2.length < 2 ^ 32

omit [F64Arith F] [LawfulBits F] in
theorem Column.Binds.all {rows : Nat} {fields : List Field} {columns : List (Column F)}
    (binds : List.Forall₂ (Column.Binds rows) fields columns) :
    (∀ column ∈ columns, column.length = rows) ∧ ∀ pair ∈ fields.zip columns,
    pair.2.Binds rows pair.1 := by
  induction binds with
  | nil => exact ⟨by simp, by simp⟩
  | cons head rest ih =>
    constructor
    · intro column member
      rcases List.mem_cons.mp member with rfl | member
      · exact head.length
      · exact ih.1 column member
    · intro pair member
      rcases List.mem_cons.mp member with rfl | member
      · exact head
      · exact ih.2 pair member

omit [F64Arith F] [LawfulBits F] in
/-- A batch of bound columns passes every check of its constructor. -/
theorem recordBatch_new {batch : RecordBatch F}
    (binds : List.Forall₂ (Column.Binds batch.numRows) batch.schema.fields batch.columns) :
    RecordBatch.new batch.schema batch.columns = .ok batch := by
  obtain ⟨lengths, bound⟩ := Column.Binds.all binds
  have typed : ((batch.schema.fields.zip batch.columns).all fun pair =>
      decide (pair.1.columnType = pair.2.columnType)) = true :=
    List.all_eq_true.mpr fun pair member => decide_eq_true (bound pair member).typed.symm
  have long : (batch.columns.all fun column => decide (column.length = batch.numRows)) = true :=
    List.all_eq_true.mpr fun column member => decide_eq_true (lengths column member)
  have nullable : ((batch.schema.fields.zip batch.columns).all fun pair =>
      pair.1.nullable || pair.2.validity.isNone) = true := by
    refine List.all_eq_true.mpr fun pair member => ?_
    cases same : pair.2.validity with
    | none => simp
    | some bits => simp [((bound pair member).validity bits same).2]
  rw [RecordBatch.new, check, check, check, check, decide_eq_true binds.length_eq, typed, nullable]
  simp only [if_true, bind, Except.bind]
  rw [if_pos long]
  rfl

def Segment.parts (segment : Segment F) : SegmentParts F where
  version := segmentVersion segment
  baseRowId := segment.baseRowId
  orderingKey := segment.orderingKey
  ordered := segment.ordered
  columns := segment.batch.schema.fields.zip
    (segment.batch.columns.map fun column => (column, computeZoneMap column))
  sequence := segment.sequence
  superseded := segment.superseded

theorem segmentMagic_length : segmentMagic.length = 8 := by decide

def Segment.header (segment : Segment F) : SegmentHeader where
  version := segmentVersion segment
  baseRowId := segment.baseRowId
  rowCount := segment.numRows
  orderingKey := segment.orderingKey
  ordered := segment.ordered
  columnCount := segment.batch.schema.fields.length

def headerBytes (segment : Segment F) : Bytes :=
  segmentMagic ++ (toLe 2 (segmentVersion segment) ++
    (toLe 2 0 ++ (toLe 4 (crc32c (segmentPayload segment)).toNat ++
    (toLe 8 segment.baseRowId ++ (toLe 8 segment.numRows ++ (toLe 4 segment.orderingKey ++
      (toLe 4 (if segment.ordered then 1 else 0) ++ toLe 4 segment.batch.schema.fields.length)))))))

omit [LawfulBits F] in
theorem readSegmentHeader_reads {segment : Segment F} (sealed_ : segment.Sealed)
    (narrow : segment.Narrow) :
    Reads (readSegmentHeader (segmentPayload segment)) (headerBytes segment) segment.header := by
  have version : segmentVersion segment = 1 ∨ segmentVersion segment = 2 := by
    unfold segmentVersion
    split <;> simp
  refine (segmentMagic_length ▸ Reads.take _ segmentMagic).bind ?_
  refine (Reads.lift (show _ = Except.ok () from if_pos (by simp))).bind
    ((Reads.word _ (show _ < 256 ^ 2 by omega)).bind ?_)
  refine (Reads.lift (show _ = Except.ok () from if_pos (by simp [version]))).bind
    ((Reads.word _ (by decide)).bind ?_)
  refine (Reads.lift (show _ = Except.ok () from if_pos (by simp))).bind
    ((Reads.word _ (UInt32.toNat_lt _)).bind ?_)
  refine (Reads.lift (show _ = Except.ok () from if_pos (by simp))).bind ?_
  have rows := sealed_.rows
  refine (Reads.word _ sealed_.base).bind
    ((Reads.word _ (show segment.numRows < 256 ^ 8 by omega)).bind ?_)
  refine (Reads.word _ (show _ < 256 ^ 4 from Nat.lt_trans sealed_.keyed narrow.count)).bind
    ((Reads.word _ (by split <;> decide)).bind ?_)
  refine .congr ((Reads.word _ (show _ < 256 ^ 4 from narrow.count)).bind ?_) (List.append_nil _) rfl
  have flag : decide (((if segment.ordered = true then 1 else 0 : Nat) &&& 1) ≠ 0) =
      segment.ordered := by
    cases segment.ordered <;> rfl
  rw [flag]
  exact (Reads.lift (show _ = Except.ok () from if_pos (by simp [sealed_.keyed]))).finish _

theorem segmentParts_reads {segment : Segment F} (sealed_ : segment.Sealed) (narrow : segment.Narrow) :
    Reads (segmentParts (segmentPayload segment)) (encodeSegment segment) segment.parts := by
  have split_ : encodeSegment segment = headerBytes segment ++ segmentBody segment := by
    simp only [encodeSegment, segmentPayload, headerBytes, List.append_assoc]
  have short := sealed_.file
  rw [split_, List.length_append, segmentBody, List.length_append] at short
  rw [split_]
  refine (readSegmentHeader_reads sealed_ narrow).bind ?_
  refine (decodeColumns_reads (show segment.zoneMaps.drop 0 = _ from sealed_.maps) sealed_.binds
    sealed_.interned sealed_.rows narrow.fields
    narrow.bitmaps (by omega)).bind ?_
  exact (trailer_reads sealed_.numbered sealed_.rows narrow.trailer).finish fun found =>
      ({ segment.parts with
    sequence := found.1
    superseded := found.2 } : SegmentParts F)

/-- A narrow segment's file is read back. -/
theorem decode_encodeSegment {segment : Segment F} (sealed_ : segment.Sealed)
    (narrow : segment.Narrow) :
    decodeSegment (encodeSegment segment) = .ok segment := by
  have reads := (segmentParts_reads sealed_ narrow).takes []
  have payload : (encodeSegment segment).drop 16 = segmentPayload segment := by
    rw [encodeSegment, ← List.append_assoc, ← List.append_assoc, ← List.append_assoc]
    exact List.drop_left' (by simp [segmentMagic_length])
  rw [List.append_nil] at reads
  rw [decodeSegment, payload, reads]
  show segment.parts.segment = _
  have lengths := sealed_.binds.length_eq
  have fields : segment.parts.columns.map (·.1) = segment.batch.schema.fields :=
    List.map_fst_zip (by simp [lengths])
  have pairs : segment.parts.columns.map (·.2) = segment.batch.columns.map fun column =>
      (column, computeZoneMap column) :=
    List.map_snd_zip (by simp [lengths])
  have columns : segment.parts.columns.map (·.2.1) = segment.batch.columns := by
    have firsts := congrArg (List.map (·.1)) pairs
    rw [List.map_map, List.map_map] at firsts
    exact firsts.trans (List.map_id _)
  have maps : segment.parts.columns.map (·.2.2) = segment.zoneMaps := by
    have seconds := congrArg (List.map (·.2)) pairs
    rw [List.map_map, List.map_map] at seconds
    exact seconds.trans sealed_.maps.symm
  rw [SegmentParts.segment, fields, columns, maps, recordBatch_new sealed_.binds]
  rfl

end TallyDB
