import TallyDB.StorageLite.Decoded
import TallyDB.StorageLite.ManifestFormat

/-!
# Where the decoders panic

A decoder refuses nearly every malformed file. The exceptions are an annotation on a type it
is not for, a bitmap on a `NOT NULL` field, key codes over an empty dictionary, and a row
count whose raw values would not fit a word or whose decoded ones would not fit memory.
-/

namespace TallyDB

open Wire Reader

/-! ### What only refuses -/

theorem ofOption_safe {α : Type} (value : Option α) (reason : String) : ¬ Panicked
      (ofOption value reason) := by
  cases value with
  | none => exact not_panicked_refuse _
  | some value => exact not_panicked_ok _

theorem require_safe (condition : Bool) (error : FormatError) : ¬ Panicked
      (require condition error) := by
  unfold require
  split
  · exact not_panicked_ok _
  · exact not_panicked_refuse _

theorem corrupt_safe {α : Type} (reason : String) : ¬ Panicked
      (corrupt reason : Result FormatError α) := not_panicked_refuse _

theorem word_safe (width : Nat) : Safe (word endOfFile width) := (Sound.word _ _).safe

theorem take_safe (count : Nat) : Safe (take endOfFile count) := (Sound.take _ _).safe

theorem byte_safe : Safe (byte endOfFile) := (Sound.byte _).safe

theorem ofOption_sound {α : Type} (value : Option α) (reason : String) :
    Sound (lift (ofOption value reason)) fun result used => value = some result ∧ used = [] :=
  .lift (fun message failed => ofOption_safe value reason ⟨message, failed⟩) fun _ given =>
    ⟨ofOption_ok given, rfl⟩

theorem require_sound (condition : Bool) (error : FormatError) :
    Sound (lift (require condition error)) fun _ used => condition = true ∧ used = [] :=
  .lift (fun message failed => require_safe condition error ⟨message, failed⟩) fun _ given =>
    ⟨require_ok given, rfl⟩

theorem reads_ofOption {α : Type} {value : Option α} {result : α} (given : value = some result)
    (reason : String) :
    Reads (lift (ofOption value reason)) [] result := .lift (by rw [given]; rfl)

/-! ### Fields -/

/-- Bytes that start with a field whose annotation is in the registry and not for the field's type.
-/
def Misannotated (bytes : Bytes) : Prop :=
  ∃ (name : String) (columnType : ColumnType) (nullable tag payload : UInt8) (logical :
    LogicalType) (rest : Bytes),
    (utf8 name).length < 2 ^ 16 ∧ columnType ≠ .i64 ∧ LogicalType.fromParts tag payload = some logical ∧
      bytes = toLe 2 (utf8 name).length ++
        (utf8 name ++ (columnType.tag :: nullable :: tag :: payload :: rest))

theorem fromTag_some {tag : UInt8} {columnType : ColumnType}
    (known : ColumnType.fromTag tag = some columnType) : tag = columnType.tag := by
  unfold ColumnType.fromTag at known
  split at known
  · cases known
    assumption
  · split at known
    · cases known
      assumption
    · split at known
      · cases known
        assumption
      · cases known

theorem panics_decodeField {bytes : Bytes} : Panics decodeField bytes ↔ Misannotated bytes := by
  constructor
  · intro panics
    obtain ⟨nameLen, _, _, rfl, ⟨long, rfl⟩, -, panics⟩ := panics.after (Sound.word _ _)
    obtain ⟨nameBytes, _, _, rfl, ⟨rfl, rfl⟩, -, panics⟩ := panics.after (Sound.take _ _)
    obtain ⟨name, _, _, rfl, ⟨text, rfl⟩, -, panics⟩ := panics.after (ofOption_sound _ _)
    obtain ⟨typeTag, _, _, rfl, rfl, -, panics⟩ := panics.after (Sound.byte _)
    obtain ⟨columnType, _, _, rfl, ⟨type, rfl⟩, -, panics⟩ := panics.after (ofOption_sound _ _)
    obtain ⟨nullable, _, _, rfl, rfl, -, panics⟩ := panics.after (Sound.byte _)
    obtain ⟨tag, _, _, rfl, rfl, -, panics⟩ := panics.after (Sound.byte _)
    obtain ⟨payload, _, rest, rfl, rfl, -, panics⟩ := panics.after (Sound.byte _)
    dsimp only at panics
    split at panics
    · exact absurd panics (not_panics_pure _ _)
    obtain ⟨logical, _, rest, rfl, ⟨known, rfl⟩, -, panics⟩ := panics.after (ofOption_sound _ _)
    obtain ⟨message, failed⟩ := panics_lift.mp panics
    unfold Field.withLogical at failed
    split at failed
    · cases failed
    next other =>
      obtain rfl := fromTag_some type
      obtain rfl := utf8_of_fromUtf8 text
      exact ⟨name, columnType, nullable, tag, payload, logical, rest, long,
        fun same => other (decide_eq_true same), known, by simp⟩
  · rintro ⟨name, columnType, nullable, tag, payload, logical, rest, short, other, known, rfl⟩
    refine (Reads.word _ short).panics.mpr ((Reads.take _ (utf8 name)).panics.mpr ?_)
    refine (reads_ofOption (fromUtf8_utf8 name) _).panics.mpr ((readByte columnType.tag).panics.mpr ?_)
    refine (reads_ofOption (ColumnType.fromTag_tag columnType) _).panics.mpr
      ((readByte nullable).panics.mpr ?_)
    refine (readByte tag).panics.mpr ((readByte payload).panics.mpr ?_)
    dsimp only
    split
    · next zero =>
      subst zero
      cases known
    · refine (reads_ofOption known _).panics.mpr (panics_lift.mpr ⟨_, dif_neg fun applies => ?_⟩)
      exact other (of_decide_eq_true applies)

/-! ### Parts that only refuse -/

variable {F : Type} [F64Arith F]

theorem readBits64_safe : Safe readBits64 := (word_safe 8).map _

theorem decodeZoneMap_safe (columnType : ColumnType) (name : String) : Safe
      (decodeZoneMap (F := F) columnType name) := by
  refine byte_safe.seq fun presence => (require_sound _ _).safe.seq fun _ => ?_
  split
  · exact .pure none
  refine readBits64_safe.seq fun min => readBits64_safe.seq fun max => ?_
  cases columnType with
  | f64 => exact .pure _
  | i64 =>
    dsimp only
    split
    · exact .lift (corrupt_safe _)
    · exact .pure _
  | key => exact .lift (corrupt_safe _)

theorem decodeValidity_safe (rows : Nat) (name : String) : Safe (decodeValidity rows name) := by
  refine byte_safe.seq fun present => ?_
  split
  · exact .pure none
  refine (word_safe 4).seq fun byteLen => (take_safe byteLen).bind (.take _ _) fun bytes length => ?_
  have enough (error : FormatError) : Gives (lift (require ((rows + 7) / 8 ≤ byteLen) error))
      fun _ => (rows + 7) / 8 ≤ byteLen :=
    .lift fun _ required => of_decide_eq_true (require_ok required)
  refine (require_sound _ _).safe.bind (enough _) fun _ fits =>
    (Safe.each fun row member => ?_).seq fun bits => .pure _
  rw [List.mem_range] at member
  rw [bitOf_eq (by omega)]
  exact .pure _

theorem readSegmentHeader_safe (payload : Bytes) : Safe (readSegmentHeader payload) := by
  refine (take_safe 8).seq fun magic => (require_sound _ _).safe.seq fun _ =>
    (word_safe 2).seq fun version => ?_
  refine (require_sound _ _).safe.seq fun _ => (word_safe 2).seq fun reserved =>
    (require_sound _ _).safe.seq fun _ => ?_
  refine (word_safe 4).seq fun stored => (require_sound _ _).safe.seq fun _ =>
    (word_safe 8).seq fun baseRowId => ?_
  refine (word_safe 8).seq fun rowCount => (word_safe 4).seq fun orderingKey =>
    (word_safe 4).seq fun flags => ?_
  exact (word_safe 4).seq fun columnCount => (require_sound _ _).safe.seq fun _ => .pure _

/-! ### Dictionaries -/

theorem internChecked_fits {dictionary : Dictionary} {text : String}
    (size : dictionary.bytes.length + (utf8 text).length < 2 ^ 31) :
    ∃ code grown, dictionary.internChecked text = .ok (code, grown) ∧
      grown.bytes.length ≤ dictionary.bytes.length + (utf8 text).length := by
  by_cases seen : text ∈ dictionary.values
  · refine ⟨(dictionary.intern text).1, (dictionary.intern text).2, ?_, ?_⟩
    · rw [Dictionary.internChecked, if_neg (not_not.mpr seen)]
      rfl
    · rw [Dictionary.intern, dif_pos seen]
      exact Nat.le_add_right _ _
  · have count := dictionary.count_le
    obtain ⟨grown, interned, values⟩ := internChecked_new seen (by omega) size
    refine ⟨_, grown, interned, Nat.le_of_eq ?_⟩
    rw [Dictionary.bytes, values, List.flatMap_append, List.length_append]
    simp [Dictionary.bytes]

/-- Interning stays in range as long as the texts stay in front of the offsets read. -/
theorem internSpans_safe (name : String) (bytes : Bytes) {offsets : List Int} {dictionary : Dictionary}
    (small : ∀ offset ∈ offsets, offset < 2 ^ 31)
    (behind : ∀ start rest, offsets = start :: rest → 0 ≤ start → dictionary.bytes.length ≤ start) :
    ¬ Panicked (internSpans name bytes offsets dictionary) := by
  induction offsets generalizing dictionary with
  | nil => simp [internSpans]
  | cons start offsets ih =>
    cases offsets with
    | nil => simp [internSpans]
    | cons stop rest =>
      have bounded := small stop (List.mem_cons_of_mem _ List.mem_cons_self)
      have later : ∀ offset ∈ stop :: rest, offset < 2 ^ 31 :=
        fun offset member => small offset (List.mem_cons_of_mem _ member)
      rw [internSpans, panicked_bind]
      rintro (failed | ⟨_, required, failed⟩)
      · exact require_safe _ _ failed
      have ordered := of_decide_eq_true (require_ok required)
      rcases panicked_bind.mp failed with failed | ⟨value, decoded, failed⟩
      · exact ofOption_safe _ _ failed
      have front := behind start (stop :: rest) rfl ordered.1
      have length : (utf8 value).length = stop.toNat - start.toNat := by
        rw [utf8_of_fromUtf8 (ofOption_ok decoded), List.length_drop, List.length_take]
        omega
      obtain ⟨code, grown, interned, size⟩ := @internChecked_fits dictionary value (by omega)
      rw [interned, panicked_bind] at failed
      rcases failed with failed | ⟨_, same, failed⟩
      · exact not_panicked_ok _ failed
      obtain rfl := Except.ok.inj same
      rcases panicked_bind.mp failed with failed | ⟨_, _, failed⟩
      · exact require_safe _ _ failed
      · refine @ih grown later (fun next _ same _ => ?_) failed
        obtain rfl := (List.cons.inj same).1
        omega

theorem decodeDictionary_safe (name : String) : Safe (decodeDictionary name) := by
  refine (word_safe 4).seq fun entries => ?_
  have signed : Safe (signedWord endOfFile 4) := (word_safe 4).map _
  refine (signed.times (entries + 1)).bind ((Gives.signedWord _ 4).times (entries + 1))
    fun offsets small => ?_
  refine (word_safe 4).seq fun bytesLen => (take_safe bytesLen).seq fun bytes => ?_
  exact .lift (internSpans_safe name bytes small.2 fun start _ _ positive => positive)

/-! ### Values -/

theorem checkCodes_safe (name : String) (dictionary : Dictionary) (row : Nat) (codes : List UInt32) :
    ¬ Panicked (checkCodes name dictionary row codes) := by
  induction codes generalizing row with
  | nil => exact not_panicked_ok ()
  | cons code codes ih =>
    rw [checkCodes, panicked_bind]
    rintro (failed | ⟨_, _, failed⟩)
    · exact require_safe _ _ failed
    · exact ih (row + 1) failed

/-- Codes that pass are in range, or all zero over an empty dictionary. -/
theorem checkCodes_spec {name : String} {dictionary : Dictionary} {row : Nat} {codes : List UInt32}
    (passed : checkCodes name dictionary row codes = .ok ()) :
    ∀ code ∈ codes, code.toNat < dictionary.values.length ∨ code = 0 ∧ dictionary.values = [] := by
  induction codes generalizing row with
  | nil => simp
  | cons code codes ih =>
    obtain ⟨_, first, rest⟩ := except_bind_ok passed
    intro other member
    rcases List.mem_cons.mp member with rfl | member
    · simpa [Dictionary.isEmpty] using require_ok first
    · exact ih rest other member

theorem panicked_rawValues {kind name what : String} {bytes : Bytes} {rows width : Nat} :
    Panicked (rawValues kind name what bytes rows width) ↔ 2 ^ 64 ≤ rows * width := by
  have product : Panicked (timesWord rows width) ↔ 2 ^ 64 ≤ rows * width := by
    rw [timesWord, panicked_bind, panicked_check, or_iff_left, decide_eq_false_iff_not, Nat.not_lt]
    rintro ⟨_, _, failed⟩
    exact not_panicked_ok _ failed
  rw [rawValues, panicked_bind, product, or_iff_left]
  rintro ⟨_, _, failed⟩
  rcases panicked_bind.mp failed with failed | ⟨_, _, failed⟩
  · exact require_safe _ _ failed
  · exact ((word_safe width).times rows).exactly _ bytes failed

theorem panicked_withCapacity_sound {α : Type} {good : α → Bytes → Prop}
    {reader : Reader CodecError α} (sound : Sound reader good)
    {width rows : Nat} {bytes : Bytes} :
    Panicked (withCapacity width rows (exactly .trailingBytes reader bytes)) ↔
    2 ^ 63 ≤ rows * width := by
  rw [panicked_withCapacity]
  exact or_iff_left fun both => sound.safe.exactly _ bytes both.2

/-- The type of the columns that a compressing codec is for. -/
def Codec.compresses : Codec → Option ColumnType
  | uncompressed => none
  | deltaOfDeltaI64 | forI64 => some .i64
  | alpF64 => some .f64
  | forU32 => some .key

/-- A row count whose raw values would overflow a word, or whose decoded ones would overflow memory.
-/
def Overlong (rows width : Nat) (columnType : ColumnType) (codec : Codec) : Prop :=
  codec = .uncompressed ∧ 2 ^ 64 ≤ rows * width ∨ codec.compresses = some columnType ∧
    2 ^ 63 ≤ rows * width

theorem panicked_f64Values {codec : Codec} {name : String} {bytes : Bytes} {rows : Nat} :
    Panicked (f64Values (F := F) codec name bytes rows) ↔ Overlong rows 8 .f64 codec := by
  cases codec with
  | uncompressed => simp [f64Values, panicked_rawValues, Overlong, Codec.compresses]
  | alpF64 =>
      exact (panicked_withCapacity_sound (alpF64_sound rows)).trans
        (by simp [Overlong, Codec.compresses])
  | deltaOfDeltaI64 => exact iff_of_false (corrupt_safe _) (by simp [Overlong, Codec.compresses])
  | forI64 => exact iff_of_false (corrupt_safe _) (by simp [Overlong, Codec.compresses])
  | forU32 => exact iff_of_false (corrupt_safe _) (by simp [Overlong, Codec.compresses])

theorem panicked_i64Values {codec : Codec} {name : String} {bytes : Bytes} {rows : Nat} :
    Panicked (i64Values codec name bytes rows) ↔ Overlong rows 8 .i64 codec := by
  cases codec with
  | uncompressed => simp [i64Values, panicked_rawValues, Overlong, Codec.compresses]
  | deltaOfDeltaI64 =>
      exact (panicked_withCapacity_sound (deltaOfDelta_sound rows)).trans
        (by simp [Overlong, Codec.compresses])
  | forI64 =>
      exact (panicked_withCapacity_sound (forI64_sound rows)).trans
        (by simp [Overlong, Codec.compresses])
  | alpF64 => exact iff_of_false (corrupt_safe _) (by simp [Overlong, Codec.compresses])
  | forU32 => exact iff_of_false (corrupt_safe _) (by simp [Overlong, Codec.compresses])

theorem panicked_keyCodes {codec : Codec} {name : String} {bytes : Bytes} {rows : Nat} :
    Panicked (keyCodes codec name bytes rows) ↔ Overlong rows 4 .key codec := by
  cases codec with
  | uncompressed => simp [keyCodes, panicked_rawValues, Overlong, Codec.compresses]
  | forU32 =>
      exact (panicked_withCapacity_sound (forU32_sound rows)).trans
        (by simp [Overlong, Codec.compresses])
  | deltaOfDeltaI64 => exact iff_of_false (corrupt_safe _) (by simp [Overlong, Codec.compresses])
  | forI64 => exact iff_of_false (corrupt_safe _) (by simp [Overlong, Codec.compresses])
  | alpF64 => exact iff_of_false (corrupt_safe _) (by simp [Overlong, Codec.compresses])

omit [F64Arith F] in
/-- A validity bitmap of the column's length passes the constructor's check. -/
theorem panicked_newF64Column {values : List F} {validity : Option Bitmap}
    (lengths : ∀ bits, validity = some bits → bits.length = values.length) :
    ¬ Panicked (newF64Column values validity) := by
  rw [newF64Column, panicked_bind, panicked_check]
  rintro (failed | ⟨_, _, failed⟩)
  · exact absurd (validity_length lengths) (by simp [failed])
  · exact not_panicked_ok _ failed

omit [F64Arith F] in
theorem panicked_newI64Column {values : List Int64} {validity : Option Bitmap}
    (lengths : ∀ bits, validity = some bits → bits.length = values.length) : ¬ Panicked
      (newI64Column (F := F) values validity) := by
  rw [newI64Column, panicked_bind, panicked_check]
  rintro (failed | ⟨_, _, failed⟩)
  · exact absurd (validity_length lengths) (by simp [failed])
  · exact not_panicked_ok _ failed

omit [F64Arith F] in
theorem panicked_newKeyColumn {codes : List UInt32} {validity : Option Bitmap} {dictionary : Dictionary}
    (lengths : ∀ bits, validity = some bits → bits.length = codes.length) :
    Panicked (newKeyColumn (F := F) codes validity dictionary) ↔ ∃ code ∈ codes,
    dictionary.values.length ≤ code.toNat := by
  rw [newKeyColumn, panicked_bind, panicked_check]
  have long := validity_length lengths
  constructor
  · rintro (failed | ⟨_, _, failed⟩)
    · exact absurd long (by simp [failed])
    · rcases panicked_bind.mp failed with failed | ⟨_, _, failed⟩
      · simpa using panicked_check.mp failed
      · exact absurd failed (not_panicked_ok _)
  · intro outside
    refine .inr ⟨(), by rw [check, if_pos long], panicked_bind.mpr (.inl (panicked_check.mpr ?_))⟩
    simpa using outside

def ColumnType.width : ColumnType → Nat
  | key => 4
  | _ => 8

/-- Values of an overlong column, or zero codes over an empty dictionary. -/
def FlawedValues (rows : Nat) (field : Field) (codec : Codec) (bytes : Bytes) : Prop :=
  ∃ values rest, values.length < 2 ^ 64 ∧ bytes = toLe 8 values.length ++ (values ++ rest) ∧
    (Overlong rows field.columnType.width field.columnType codec ∨
      field.columnType = .key ∧ 0 < rows ∧
      keyCodes codec field.name values rows = .ok (List.replicate rows 0) ∧
        ∃ rest', decodeDictionary field.name rest = .ok (.empty, rest'))

theorem checkCodes_empty (name : String) (row count : Nat) : checkCodes name .empty row
      (List.replicate count 0) = .ok () := by
  induction count generalizing row with
  | zero => rfl
  | succ count ih =>
    rw [List.replicate_succ, checkCodes, require,
      if_pos (by simp [Dictionary.isEmpty, Dictionary.empty])]
    exact ih (row + 1)

theorem lift_ok {ε α : Type} {result : Result ε α} {bytes rest : Bytes} {value : α}
    (taken : lift result bytes = .ok (value, rest)) :
    result = .ok value ∧ bytes = rest := by
  cases result with
  | error fault => cases taken
  | ok value =>
    cases taken
    exact ⟨rfl, rfl⟩

omit [F64Arith F] in
/-- After its codes, a key column panics over an empty dictionary only. -/
theorem panics_keyColumn {rows : Nat} {name : String} {codes : List UInt32}
    {validity : Option Bitmap} {bytes : Bytes}
    (count : codes.length = rows) (lengths : ∀ bits, validity = some bits → bits.length = rows) :
    Panics (do
      let dictionary ← decodeDictionary name
      let _ ← lift (checkCodes name dictionary 0 codes)
      lift (newKeyColumn (F := F) codes validity dictionary)) bytes ↔
      0 < rows ∧ codes = List.replicate rows 0 ∧ ∃ rest,
        decodeDictionary name bytes = .ok (.empty, rest) := by
  subst count
  constructor
  · intro panics
    rcases panics_bind.mp panics with failed | ⟨dictionary, rest, taken, panics⟩
    · exact absurd failed (decodeDictionary_safe name _)
    rcases panics_bind.mp panics with failed | ⟨_, _, passed, panics⟩
    · exact absurd (panics_lift.mp failed) (checkCodes_safe _ _ _ _)
    have spec := checkCodes_spec (lift_ok passed).1
    obtain ⟨code, member, outside⟩ := (panicked_newKeyColumn lengths).mp (panics_lift.mp panics)
    have empty : dictionary.values = [] := by
      rcases spec code member with inside | ⟨-, empty⟩
      · omega
      · exact empty
    refine ⟨List.length_pos_of_mem member, List.eq_replicate_iff.mpr ⟨rfl, fun other member => ?_⟩,
      rest, ?_⟩
    · rcases spec other member with inside | ⟨zero, -⟩
      · rw [empty] at inside
        cases inside
      · exact zero
    · rw [taken, show dictionary = .empty from Dictionary.ext_values empty]
  · rintro ⟨some, zeros, rest, taken⟩
    refine panics_bind.mpr
      (.inr ⟨.empty, rest, taken, panics_bind.mpr (.inr ⟨(), rest, ?_, panics_lift.mpr ?_⟩)⟩)
    · rw [zeros, checkCodes_empty]
      rfl
    · refine (panicked_newKeyColumn lengths).mpr ⟨0, ?_, Nat.zero_le _⟩
      rw [zeros]
      exact List.mem_replicate.mpr ⟨Nat.ne_of_gt some, rfl⟩

theorem panics_columnOf {rows : Nat} {field : Field} {codec : Codec} {validity : Option Bitmap}
    {bytes rest : Bytes}
    (lengths : ∀ bits, validity = some bits → bits.length = rows) :
    Panics (columnOf (F := F) rows field codec validity bytes) rest ↔
      (Overlong rows field.columnType.width field.columnType codec ∨
        field.columnType = .key ∧ 0 < rows ∧
        keyCodes codec field.name bytes rows = .ok (List.replicate rows 0) ∧
          ∃ rest', decodeDictionary field.name rest = .ok (.empty, rest')) := by
  unfold columnOf
  cases field.columnType with
  | f64 =>
    rw [panics_bind, panics_lift, panicked_f64Values]
    simp only [ColumnType.width, reduceCtorEq, false_and, or_false]
    refine or_iff_left ?_
    rintro ⟨values, _, taken, failed⟩
    refine panicked_newF64Column (fun bits same => ?_) (panics_lift.mp failed)
    rw [lengths bits same, f64Values_length (lift_ok taken).1]
  | i64 =>
    rw [panics_bind, panics_lift, panicked_i64Values]
    simp only [ColumnType.width, reduceCtorEq, false_and, or_false]
    refine or_iff_left ?_
    rintro ⟨values, _, taken, failed⟩
    refine panicked_newI64Column (fun bits same => ?_) (panics_lift.mp failed)
    rw [lengths bits same, i64Values_length (lift_ok taken).1]
  | key =>
    rw [panics_bind, panics_lift, panicked_keyCodes]
    simp only [ColumnType.width, true_and]
    refine or_congr_right ?_
    constructor
    · rintro ⟨codes, _, taken, failed⟩
      obtain ⟨given, rfl⟩ := lift_ok taken
      obtain ⟨some, rfl, empty⟩ := (panics_keyColumn (keyCodes_length given) lengths).mp failed
      exact ⟨some, given, empty⟩
    · rintro ⟨some, given, empty⟩
      refine ⟨List.replicate rows 0, rest, by rw [given]; rfl, ?_⟩
      exact (panics_keyColumn List.length_replicate lengths).mpr ⟨some, rfl, empty⟩

theorem panics_decodeValues {rows : Nat} {field : Field} {codec : Codec} {validity : Option Bitmap}
    {bytes : Bytes}
    (lengths : ∀ bits, validity = some bits → bits.length = rows) :
    Panics (decodeValues (F := F) rows field codec validity) bytes ↔
    FlawedValues rows field codec bytes := by
  constructor
  · intro panics
    obtain ⟨valuesLen, _, _, rfl, ⟨long, rfl⟩, -, panics⟩ := panics.after (Sound.word _ _)
    obtain ⟨values, _, rest, rfl, ⟨rfl, rfl⟩, -, panics⟩ := panics.after (Sound.take _ _)
    exact ⟨values, rest, long, rfl, (panics_columnOf lengths).mp panics⟩
  · rintro ⟨values, rest, long, rfl, flawed⟩
    exact (Reads.word _ long).panics.mpr
      ((Reads.take _ values).panics.mpr ((panics_columnOf lengths).mpr flawed))

/-! ### Columns and files -/

/-- A column that starts with a misannotated field, or whose values are flawed. -/
def FlawedColumn (F : Type) [F64Arith F] (rows : Nat) (bytes : Bytes) : Prop :=
  Misannotated bytes ∨ ∃ field codecTag codec zoneMap validity afterField afterMap values,
    decodeField bytes = .ok (field, codecTag :: afterField) ∧ Codec.fromTag codecTag = some codec ∧
      decodeZoneMap (F := F) field.columnType field.name afterField = .ok (zoneMap, afterMap) ∧
      decodeValidity rows field.name afterMap = .ok (validity, values) ∧
        FlawedValues rows field codec values

theorem panics_decodeColumn {rows : Nat} {bytes : Bytes} : Panics
      (decodeColumn (F := F) rows) bytes ↔ FlawedColumn F rows bytes := by
  rw [decodeColumn, panics_bind, panics_decodeField]
  refine or_congr_right ⟨?_, ?_⟩
  · rintro ⟨field, _, read, panics⟩
    obtain ⟨codecTag, _, afterField, rfl, rfl, -, panics⟩ := panics.after (Sound.byte _)
    obtain ⟨codec, _, _, rfl, ⟨known, rfl⟩, -, panics⟩ := panics.after (ofOption_sound _ _)
    rcases panics_bind.mp panics with failed | ⟨zoneMap, afterMap, map, panics⟩
    · exact absurd failed (decodeZoneMap_safe _ _ _)
    rcases panics_bind.mp panics with failed | ⟨validity, values, bits, panics⟩
    · exact absurd failed (decodeValidity_safe _ _ _)
    have lengths := decodeValidity_gives rows field.name _ _ _ bits
    rcases panics_bind.mp panics with failed | ⟨_, _, _, failed⟩
    · refine ⟨field, codecTag, codec, zoneMap, validity, _, afterMap, values, read,
        known, map, bits, ?_⟩
      exact (panics_decodeValues fun bits same => (lengths bits same).1).mp failed
    · exact absurd failed (not_panics_pure _ _)
  · rintro ⟨field, codecTag, codec, zoneMap, validity, afterField, afterMap, values, read, known,
      map, bits, flawed⟩
    have lengths := decodeValidity_gives rows field.name _ _ _ bits
    refine ⟨field, _, read, (readByte codecTag).panics.mpr ((reads_ofOption known _).panics.mpr ?_)⟩
    refine panics_bind.mpr
      (.inr ⟨zoneMap, afterMap, map,
      panics_bind.mpr (.inr ⟨validity, values, bits, panics_bind.mpr (.inl ?_)⟩)⟩)
    exact (panics_decodeValues fun bits same => (lengths bits same).1).mpr flawed

/-- A trailer section of births or kills row by row, in a file of more rows than a vector of them
can hold. -/
def FlawedSection (rows : Nat) (bytes : Bytes) : Prop :=
  2 ^ 63 ≤ rows * 8 ∧ ∃ tag payload rest, tag < 2 ^ 16 ∧ payload.length < 2 ^ 32 ∧
    bytes = toLe 2 tag ++ (toLe 4 payload.length ++ (payload ++ rest)) ∧
      (tag = 1 ∧ payload.head? = some 2 ∨ tag = 2)

/-- A trailer that has a flawed section after good ones. -/
def FlawedTrailer (version rows : Nat) (bytes : Bytes) : Prop :=
  version = 2 ∧ ∃ count rest, count < 2 ^ 16 ∧ bytes = toLe 2 count ++ rest ∧
    Changes (readSection rows) (FlawedSection rows) count (.rowIds, none) rest

theorem panicked_decodeWords {bytes : Bytes} {rows : Nat} : Panicked (decodeWords bytes rows) ↔
    2 ^ 63 ≤ rows * 8 := by
  rw [decodeWords, panicked_map]
  exact panicked_withCapacity_sound (deltaOfDelta_sound rows)

theorem panicked_decodeSequenceSection {payload : Bytes} {rows : Nat} :
    Panicked (decodeSequenceSection payload rows) ↔ 2 ^ 63 ≤ rows * 8 ∧ payload.head? = some 2 := by
  unfold decodeSequenceSection
  split
  · exact iff_of_false (corrupt_safe _) (by simp)
  next state rest =>
  rw [List.head?_cons, Option.some.injEq]
  split
  · next contiguous =>
    refine iff_of_false ?_ (by rw [contiguous]; exact fun both => absurd both.2 (by decide))
    split
    · exact not_panicked_ok _
    · exact corrupt_safe _
  · split
    · next explicit => rw [panicked_map, panicked_decodeWords, and_iff_left explicit]
    · next other => exact iff_of_false (corrupt_safe _) fun both => other both.2

theorem panics_readSection {rows : Nat} (found : SequenceInfo × Option (List Nat)) (bytes : Bytes) :
    Panics (readSection rows found) bytes ↔ FlawedSection rows bytes := by
  have body (tag : Nat) (payload rest : Bytes) : Panics (if tag = 1 then do
        let sequence ← lift (decodeSequenceSection payload rows)
        return (sequence, found.2)
      else if tag = 2 then do
        let kills ← lift (decodeWords payload rows)
        return (found.1, some kills)
      else return found : FormatReader _) rest ↔
      2 ^ 63 ≤ rows * 8 ∧ (tag = 1 ∧ payload.head? = some 2 ∨ tag = 2) := by
    split
    · next births =>
      subst births
      rw [panics_bind, panics_lift, panicked_decodeSequenceSection]
      simp [not_panics_pure]
    · split
      · next kills =>
        subst kills
        rw [panics_bind, panics_lift, panicked_decodeWords]
        simp [not_panics_pure]
      · next births kills => exact iff_of_false (not_panics_pure _ _) (by simp [births, kills])
  constructor
  · intro panics
    obtain ⟨tag, _, _, rfl, ⟨known, rfl⟩, -, panics⟩ := panics.after (Sound.word _ _)
    obtain ⟨length, _, _, rfl, ⟨short, rfl⟩, -, panics⟩ := panics.after (Sound.word _ _)
    obtain ⟨payload, _, rest, rfl, ⟨rfl, rfl⟩, -, panics⟩ := panics.after (Sound.take _ _)
    obtain ⟨overlong, kind⟩ := (body tag payload rest).mp panics
    exact ⟨overlong, tag, payload, rest, known, short, rfl, kind⟩
  · rintro ⟨overlong, tag, payload, rest, known, short, rfl, kind⟩
    refine (Reads.word _ (show _ < 256 ^ 2 from known)).panics.mpr
      ((Reads.word _ (show _ < 256 ^ 4 from short)).panics.mpr ?_)
    exact (Reads.take _ payload).panics.mpr ((body tag payload rest).mpr ⟨overlong, kind⟩)

theorem panics_readTrailer {version rows : Nat} {bytes : Bytes} :
    Panics (readTrailer version rows) bytes ↔ FlawedTrailer version rows bytes := by
  unfold readTrailer FlawedTrailer
  split
  · next second =>
    rw [and_iff_right second]
    constructor
    · intro panics
      obtain ⟨count, _, rest, rfl, ⟨small, rfl⟩, -, panics⟩ := panics.after (Sound.word _ _)
      exact ⟨count, rest, small, rfl, (panics_change panics_readSection).mp panics⟩
    · rintro ⟨count, rest, small, rfl, reaches⟩
      exact (Reads.word _ (show _ < 256 ^ 2 from small)).panics.mpr
        ((panics_change panics_readSection).mpr reaches)
  · next first => exact iff_of_false (not_panics_pure _ _) fun both => first both.1

/-- The parts of a file: a good header, and good columns up to a flawed one or up to a flawed
trailer. -/
def FlawedParts (F : Type) [F64Arith F] (payload bytes : Bytes) : Prop :=
  ∃ header columns, readSegmentHeader payload bytes = .ok (header, columns) ∧
    (Reaches (decodeColumn (F := F) header.rowCount) (FlawedColumn F header.rowCount)
      header.columnCount columns ∨
      ∃ parts trailer, times (decodeColumn (F := F) header.rowCount) header.columnCount columns =
      .ok (parts, trailer) ∧
        FlawedTrailer header.version header.rowCount trailer)

/-- A file with flawed parts, or one that is read to its end and has a bitmap on a `NOT NULL` field.
-/
def FlawedSegment (F : Type) [F64Arith F] (bytes : Bytes) : Prop :=
  FlawedParts F (bytes.drop 16) bytes ∨
  ∃ parts : SegmentParts F, segmentParts (bytes.drop 16) bytes = .ok (parts, []) ∧
    ∃ part ∈ parts.columns, part.1.nullable = false ∧ part.2.1.validity.isSome = true

theorem panics_segmentParts {payload bytes : Bytes} : Panics (segmentParts (F := F) payload) bytes ↔
    FlawedParts F payload bytes := by
  rw [segmentParts, panics_bind, or_iff_right (readSegmentHeader_safe payload bytes)]
  refine exists_congr fun header => exists_congr fun columns => and_congr_right fun _ => ?_
  rw [panics_bind, panics_times fun _ => panics_decodeColumn]
  refine or_congr_right (exists_congr fun parts => exists_congr fun trailer =>
    and_congr_right fun _ => ?_)
  rw [panics_bind, panics_readTrailer]
  exact or_iff_left fun ⟨_, _, _, failed⟩ => not_panics_pure _ _ failed

omit [F64Arith F] in
/-- Decoded columns agree with their fields in all but the bitmaps. -/
theorem panicked_recordBatch {rows : Nat} {parts : List (Field × Column F × Option (ZoneMap F))}
    (held : ∀ part ∈ parts, DecodedColumn rows part) :
    Panicked (RecordBatch.new ⟨parts.map (·.1)⟩ (parts.map (·.2.1))) ↔
      ∃ part ∈ parts, part.1.nullable = false ∧ part.2.1.validity.isSome = true := by
  have zipped : (parts.map (·.1)).zip (parts.map (·.2.1)) = parts.map fun part =>
    (part.1, part.2.1) := List.zip_map'
  have typed : ((parts.map fun part => (part.1, part.2.1)).all fun pair =>
      decide (pair.1.columnType = pair.2.columnType)) = true := by
    rw [List.all_map]
    exact List.all_eq_true.mpr fun part member => decide_eq_true (held part member).typed.symm
  have long : ((parts.map (·.2.1)).all fun column =>
      decide (column.length = (⟨⟨parts.map (·.1)⟩, parts.map (·.2.1)⟩ : RecordBatch F).numRows)) =
        true := by
    cases parts with
    | nil => rfl
    | cons first rest =>
      rw [List.all_map]
      refine List.all_eq_true.mpr fun part member => decide_eq_true ?_
      exact (held part member).length.trans (held first List.mem_cons_self).length.symm
  have passes (message : String) (next : Unit → Result FormatError (RecordBatch F)) :
    (check message true >>= next) = next () := rfl
  rw [RecordBatch.new, zipped, decide_eq_true (by simp), typed, long, passes, passes, passes,
    panicked_bind, panicked_check, or_iff_left]
  · simp [Option.isSome_iff_ne_none]
  · rintro ⟨_, _, failed⟩
    exact not_panicked_ok _ failed

/-- The decoder of a segment panics on the flawed files and on no others. -/
theorem panicked_decodeSegment {bytes : Bytes} : Panicked (decodeSegment (F := F) bytes) ↔
    FlawedSegment F bytes := by
  unfold decodeSegment FlawedSegment
  rw [← panics_segmentParts]
  cases read : segmentParts (F := F) (bytes.drop 16) bytes with
  | error fault =>
    simp only [Panics, read, reduceCtorEq, false_and, exists_false, or_false]
    simp [Panicked]
  | ok pair =>
    obtain ⟨parts, rest⟩ := pair
    have sound : ¬ Panics (segmentParts (F := F) (bytes.drop 16)) bytes := by
      rw [Panics, read]
      exact not_panicked_ok _
    rw [or_iff_right sound]
    cases rest with
    | nil =>
      obtain ⟨-, ⟨rows, held⟩, -⟩ := segmentParts_gives _ _ _ _ read
      have batch : Panicked parts.segment ↔ ∃ part ∈ parts.columns, part.1.nullable = false ∧
          part.2.1.validity.isSome = true := by
        rw [SegmentParts.segment, panicked_bind, panicked_recordBatch held, or_iff_left]
        rintro ⟨_, _, failed⟩
        exact not_panicked_ok _ failed
      simpa using batch
    | cons byte rest =>
      refine iff_of_false (corrupt_safe _) ?_
      rintro ⟨_, same, -⟩
      cases same

/-! ### Manifests -/

theorem readManifestHeader_safe (payload : Bytes) : Safe (readManifestHeader payload) := by
  refine (take_safe 8).seq fun magic => (require_sound _ _).safe.seq fun _ =>
    (word_safe 2).seq fun version => ?_
  refine (require_sound _ _).safe.seq fun _ => (word_safe 2).seq fun reserved =>
    (require_sound _ _).safe.seq fun _ => ?_
  refine (word_safe 4).seq fun stored => (require_sound _ _).safe.seq fun _ =>
    (word_safe 8).seq fun generation => ?_
  exact (word_safe 4).seq fun orderingKey => (word_safe 4).seq fun columnCount =>
    (require_sound _ _).safe.seq fun _ => .pure _

theorem readName_safe (reason : String) : Safe (readName reason) :=
  (word_safe 2).seq fun length => (take_safe length).seq fun _ => .lift (ofOption_safe _ _)

theorem readOrdered_safe (name : String) : Safe (readOrdered name) := by
  refine byte_safe.seq fun byte => ?_
  split
  · exact .pure _
  · split
    · exact .pure _
    · exact .lift (corrupt_safe _)

theorem readSummary_safe (name : String) : Safe (readSummary name) := by
  refine byte_safe.seq fun kind => ?_
  split
  · exact .pure _
  · split
    · exact (word_safe 8).map _
    · split
      · exact (word_safe 8).map _
      · exact .lift (corrupt_safe _)

theorem readRecord_safe (fields : List Field) : Safe (readRecord (F := F) fields) := by
  refine (readName_safe _).seq fun name => (word_safe 8).seq fun baseRowId =>
    (word_safe 8).seq fun rows => ?_
  refine (readOrdered_safe name).seq fun ordered => (readSummary_safe name).seq fun sequence =>
    (word_safe 4).seq fun mapCount => ?_
  refine (require_sound _ _).safe.seq fun _ => (Safe.each fun field _ => ?_).seq fun zoneMaps => .pure _
  exact decodeZoneMap_safe field.columnType name

theorem countedItems_safe {α : Type} {item : FormatReader α} (safe : Safe item) (what : String)
    (payload : Bytes) :
    ¬ Panicked (countedItems item what payload) :=
  ((word_safe 4).seq fun count => safe.times count).exactly _ payload

theorem readManifestSection_safe (fields : List Field) (sections : SectionsText F) : Safe
      (readManifestSection fields sections) := by
  refine (word_safe 2).seq fun tag => (word_safe 4).seq fun length =>
    (take_safe length).seq fun payload => ?_
  split
  · exact (Safe.lift (countedItems_safe (readRecord_safe fields) _ _)).seq fun records => .pure _
  · split
    · exact (require_sound _ _).safe.seq fun _ => .pure _
    · split
      · exact (Safe.lift (countedItems_safe (readName_safe _) _ _)).seq fun names => .pure _
      · exact .pure _

theorem readManifestSections_safe (version : Nat) (fields : List Field) : Safe
      (readManifestSections (F := F) version fields) := by
  unfold readManifestSections
  split
  · exact (word_safe 2).seq fun count => .change (readManifestSection_safe fields) count _
  · exact .pure _

/-- A manifest that has a misannotated field after a good header and good fields. -/
def FlawedManifest (bytes : Bytes) : Prop :=
  ∃ header fields, readManifestHeader (bytes.drop 16) bytes = .ok (header, fields) ∧
    Reaches decodeField Misannotated header.columnCount fields

/-- The decoder of a manifest panics on the flawed files and on no others. -/
theorem panicked_decodeManifest {bytes : Bytes} : Panicked (decodeManifest (F := F) bytes) ↔
    FlawedManifest bytes := by
  have parts (payload : Bytes) : Panics (manifestParts (F := F) payload) bytes ↔ ∃ header fields,
      readManifestHeader payload bytes = .ok (header, fields) ∧
        Reaches decodeField Misannotated header.columnCount fields := by
    rw [manifestParts, panics_bind, or_iff_right (readManifestHeader_safe payload bytes)]
    refine exists_congr fun header => exists_congr fun fields => and_congr_right fun _ => ?_
    rw [panics_bind, panics_times fun _ => panics_decodeField, or_iff_left]
    rintro ⟨fields, rest, _, failed⟩
    refine ((readManifestSections_safe header.version fields).seq fun sections => ?_) rest failed
    exact .pure _
  rw [FlawedManifest, ← parts, Panics, decodeManifest]
  cases manifestParts (F := F) (bytes.drop 16) bytes with
  | error fault => simp [Panicked]
  | ok pair =>
    refine iff_of_false ?_ (not_panicked_ok _)
    dsimp only
    split
    · exact not_panicked_ok _
    · exact corrupt_safe _

/-! ### Files that are refused or decoded -/

/-- The outcome is a value or a refusal. -/
def Returns {α : Type} (result : Result FormatError α) : Prop :=
  (∃ value, result = .ok value) ∨ ∃ error, result = .error (.refused error)

theorem returns_iff {α : Type} {result : Result FormatError α} : Returns result ↔
    ¬ Panicked result := by
  cases result with
  | ok value => simp [Returns]
  | error fault => cases fault <;> simp [Returns, Panicked]

/-- Both decoders return on every byte string but the flawed ones. -/
theorem decoders_return_iff (bytes : Bytes) :
    (Returns (decodeSegment (F := F) bytes) ↔ ¬ FlawedSegment F bytes) ∧
      (Returns (decodeManifest (F := F) bytes) ↔ ¬ FlawedManifest bytes) :=
  ⟨returns_iff.trans (not_congr panicked_decodeSegment),
    returns_iff.trans (not_congr panicked_decodeManifest)⟩

/-- An empty segment of one `f64` column, whose field carries the annotation of a timestamp. -/
def timestampedF64 : Bytes :=
  [84, 65, 76, 76, 89, 83, 69, 71, 1, 0, 0, 0, 149, 43, 241, 200, 0, 0, 0, 0, 0, 0, 0, 0, 0, 0, 0,
    0, 0, 0, 0, 0, 0, 0, 0, 0,
    1, 0, 0, 0, 1, 0, 0, 0, 1, 0, 120, 0, 0, 1, 0, 0, 0, 0, 0, 0, 0, 0, 0, 0, 0, 0]

theorem timestampedF64_panics : ¬ Returns (decodeSegment (F := UInt64) timestampedF64) := by
  rw [returns_iff, not_not, Panicked]
  exact ⟨"the annotation does not apply to the type", by decide +kernel⟩

end TallyDB
