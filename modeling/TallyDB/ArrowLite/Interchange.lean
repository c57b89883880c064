import TallyDB.ArrowLite.Import

/-!
# Batches over the C interface

An exported node satisfies every condition of the importer and gives its column back. A
foreign node gives its physical rows, or is refused for what is wrong with it: see
`interchange_iff`.
-/

namespace TallyDB

open Wire

variable {F : Type} [F64 F]

/-! ### Exported schemas -/

/-- A field that the interface can describe: a C string has no NUL, and a decimal no more digits
than a word. -/
structure Field.Portable (field : Field) : Prop where
  name : 0 ∉ utf8 field.name
  scale : ∀ scale, field.logical = some (.decimal64 scale) → scale ≤ LogicalType.decimal64Precision

theorem cString_iff {text what : String} {bytes : Bytes} : cString text what = .ok bytes ↔
    0 ∉ utf8 text ∧ bytes = utf8 text := by
  unfold cString check
  by_cases ends : 0 ∈ utf8 text
  · rw [decide_eq_false (not_not.mpr ends)]
    exact iff_of_false (fun failed => by cases failed) fun both => both.1 ends
  · rw [decide_eq_true ends]
    exact ⟨fun same => ⟨ends, (Except.ok.inj same).symm⟩, fun both => congrArg Except.ok both.2.symm⟩

theorem decimalFormat : ∀ scale ≤ 18, ∃ format,
    (LogicalType.decimal64 (UInt8.ofNat scale)).cDataFormat = .ok format ∧
    0 ∉ utf8 format ∧ format ≠ "g" ∧ format ≠ "l" ∧ format ≠ "tsn:" ∧
    ['d', ':'].isPrefixOf format.toList = true ∧
    parseDecimal format = .ok (.decimal64 (UInt8.ofNat scale)) := by
  have all : ∀ scale < 19, (match (LogicalType.decimal64 (UInt8.ofNat scale)).cDataFormat with
      | .ok format =>
          decide (0 ∉ utf8 format ∧ format ≠ "g" ∧ format ≠ "l" ∧ format ≠ "tsn:" ∧
            ['d', ':'].isPrefixOf format.toList = true ∧
          parseDecimal format = .ok (.decimal64 (UInt8.ofNat scale)))
      | .error _ => false) = true := by decide +kernel
  intro scale fits
  have one := all scale (by omega)
  split at one
  · next format written => exact ⟨format, written, of_decide_eq_true one⟩
  · cases one

/-- The type and the annotation of a field are read back from its format. -/
theorem fieldFormat_parses {field : Field} (portable : field.Portable) :
    ∃ format dictionary, fieldFormat field = .ok format ∧ 0 ∉ utf8 format ∧
    fieldDictionary field = .ok dictionary ∧
      parseType field.name format dictionary = .ok (field.columnType, field.logical) := by
  have plain (other : field.columnType ≠ .i64) : field.logical = none := by
    cases annotated : field.logical with
    | none => rfl
    | some annotation => exact absurd (of_decide_eq_true (field.applies annotation annotated)) other
  unfold fieldFormat fieldDictionary
  cases typed : field.columnType with
  | f64 =>
    rw [plain (by simp [typed])]
    exact ⟨_, _, rfl, by decide, rfl, rfl⟩
  | i64 =>
    cases annotated : field.logical with
    | none => exact ⟨_, _, rfl, by decide, rfl, rfl⟩
    | some annotation =>
      cases annotation with
      | timestampNs => exact ⟨_, _, rfl, by decide, rfl, rfl⟩
      | decimal64 scale =>
        obtain ⟨format, written, clean, notF64, notI64, notTime, decimal, parsed⟩ :=
          decimalFormat scale.toNat (UInt8.le_iff_toNat_le.mp (portable.scale scale annotated))
        rw [UInt8.ofNat_toNat] at written parsed
        refine ⟨format, none, written, clean, rfl, ?_⟩
        unfold parseType
        simp only
        rw [if_neg notF64, if_neg notI64, if_neg notTime, if_pos decimal, parsed]
        rfl
  | key =>
    rw [plain (by simp [typed])]
    exact ⟨_, _, rfl, by decide, rfl, rfl⟩

theorem annotated_same (field : Field) : annotated
      (.new field.name field.columnType field.nullable) field.logical = .ok field := by
  obtain ⟨name, columnType, nullable, logical, applies⟩ := field
  cases logical with
  | none => rfl
  | some annotation =>
    have same : (Field.new name columnType nullable).withLogical annotation =
        .ok ⟨name, columnType, nullable, some annotation, applies⟩ :=
      dif_pos (applies annotation rfl)
    show constructed ((Field.new name columnType nullable).withLogical annotation) = _
    rw [same]
    rfl

theorem cstr_utf8 (text : String) : cstr (some (utf8 text)) = .ok text := by
  simp only [cstr, fromUtf8_utf8]

/-- A node of a field, as far as the importer of fields reads it. -/
theorem parseField_exportField {field : Field} (portable : field.Portable) :
    ∃ node, exportField field = .ok node ∧ parseField node = .ok field := by
  obtain ⟨format, dictionary, written, clean, nested, parsed⟩ := fieldFormat_parses portable
  let node : ArrowSchema :=
    ⟨some (utf8 format), some (utf8 field.name), if field.nullable then arrowFlagNullable else 0, 0,
      [], dictionary, true⟩
  have flags : decide (node.flags &&& arrowFlagNullable ≠ 0) = field.nullable := by
    cases nullable : field.nullable <;> simp [node, nullable, arrowFlagNullable]
  refine ⟨node, ?_, ?_⟩
  · unfold exportField newSchemaNode
    rw [nested, written]
    simp only [bind, Except.bind, cString_iff.mpr ⟨clean, rfl⟩, cString_iff.mpr ⟨portable.name, rfl⟩]
    rfl
  · unfold parseField parseName
    simp only [bind, Except.bind, node, cstr_utf8, parsed]
    refine Eq.trans ?_ (annotated_same field)
    exact congrArg (fun nullable => annotated (.new field.name field.columnType nullable)
      field.logical) flags

theorem portable_of_export {field : Field} {node : ArrowSchema}
    (exported : exportField field = .ok node) : field.Portable := by
  unfold exportField newSchemaNode at exported
  obtain ⟨_, -, exported⟩ := except_bind_ok exported
  obtain ⟨format, written, exported⟩ := except_bind_ok exported
  obtain ⟨_, -, exported⟩ := except_bind_ok exported
  obtain ⟨name, named, -⟩ := except_bind_ok exported
  refine ⟨(cString_iff.mp named).1, fun scale annotated => ?_⟩
  have typed : field.columnType = .i64 := of_decide_eq_true (field.applies _ annotated)
  unfold fieldFormat at written
  simp only [typed, annotated, LogicalType.cDataFormat] at written
  obtain ⟨_, checked, -⟩ := except_bind_ok written
  unfold check at checked
  split at checked
  · next fits => exact of_decide_eq_true fits
  · cases checked

theorem readBack {f : ArrowSchema → Result ImportError Field} {children : List ArrowSchema}
    {fields : List Field}
    (related : List.Forall₂ (fun child field => f child = .ok field) children fields) :
    (List.range children.length).mapM (fun i => index children i >>= f) = .ok fields := by
  have same : (fields.map id) = (List.range children.length).map fun i =>
      fields.getD i (.new "" .f64 false) := by
    rw [List.map_id]
    refine List.ext_getElem (by simp [related.length_eq]) fun i inside _ => ?_
    simp [List.getElem?_eq_getElem inside]
  rw [List.map_id] at same
  have read := @rows_read _ _ (fun i => index children i >>= f)
      (fun i => fields.getD i (.new "" .f64 false)) children.length fun i below => by
    have bound : i < fields.length := related.length_eq ▸ below
    refine .of_eq ?_
    rw [index, List.getElem?_eq_getElem below, List.getD_eq_getElem?_getD,
      List.getElem?_eq_getElem bound]
    exact related.get below bound
  obtain ⟨result, gives, rfl⟩ := read.accepts trivial
  rw [gives, ← same]

theorem parseSchema_exportSchema {schema : Schema}
    (portable : ∀ field ∈ schema.fields, field.Portable) :
    ∃ node, exportSchema schema = .ok node ∧ parseSchema node = .ok schema := by
  obtain ⟨fields⟩ := schema
  obtain ⟨children, exported, parsed⟩ : ∃ children, fields.mapM exportField = .ok children ∧
      List.Forall₂ (fun child field => parseField child = .ok field) children fields := by
    have each (field : Field) (member : field ∈ fields) :
        Decides (exportField field) True fun node => parseField node = .ok field := by
      obtain ⟨node, exported, parsed⟩ := parseField_exportField (portable field member)
      rw [exported]
      exact .pure trivial parsed
    obtain ⟨children, exported, related⟩ := (Decides.mapM each).accepts fun _ _ => trivial
    exact ⟨children, exported, related.flip⟩
  refine ⟨⟨some (utf8 "+s"), some (utf8 ""), 0, children.length, children, none, true⟩, ?_, ?_⟩
  · unfold exportSchema newSchemaNode
    rw [exported]
    rfl
  · unfold parseSchema
    simp only [cstr_utf8, usize, ensure, bind, Except.bind, if_true, decide_true]
    have read := readBack parsed
    simp only [bind, Except.bind] at read
    rw [if_neg (by omega)]
    simp only [Int.toNat_natCast, read]
    rfl

theorem portable_of_exportSchema {schema : Schema} {node : ArrowSchema}
    (exported : exportSchema schema = .ok node) :
    ∀ field ∈ schema.fields, field.Portable := by
  unfold exportSchema at exported
  obtain ⟨children, exported, -⟩ := except_bind_ok exported
  intro field member
  obtain ⟨index, inside, rfl⟩ := List.getElem_of_mem member
  have related := except_mapM_ok exported
  exact portable_of_export (related.get inside (related.length_eq ▸ inside))

/-! ### Exported arrays -/

theorem bitAt_asBytes (bits : Bitmap) (row : Nat) : bitAt bits.asBytes row = Bitmap.get bits row := by
  rw [bitAt, Bitmap.asBytes, ofLe_toLe_of_lt (ofDigits_bits_lt bits), testBit_ofDigits, Bitmap.get]

theorem flatMap_toLe_length (width : Nat) (values : List Nat) :
    (values.flatMap (toLe width)).length = width * values.length := by
  induction values with
  | nil => rfl
  | cons value values ih =>
    rw [List.flatMap_cons, List.length_append, toLe_length, ih, List.length_cons, Nat.mul_succ]
    omega

theorem wordAt_flatMap {width : Nat} {values : List Nat} {row : Nat} (inside : row < values.length) :
    wordAt (values.flatMap (toLe width)) width row = values[row] % 256 ^ width := by
  induction values generalizing row with
  | nil => cases inside
  | cons value values ih =>
    unfold wordAt
    cases row with
    | zero =>
      rw [List.flatMap_cons, Nat.mul_zero, List.drop_zero, List.take_append_of_le_length (by simp),
        List.take_of_length_le (by simp), ofLe_toLe]
      rfl
    | succ row =>
      have rest := ih (by simpa using inside : row < values.length)
      unfold wordAt at rest
      have skip : (value :: values).flatMap (toLe width) = toLe width value ++ values.flatMap
        (toLe width) := List.flatMap_cons
      rw [skip, Nat.mul_succ, Nat.add_comm, ← List.drop_drop, List.drop_left' (toLe_length _ _), rest]
      rfl

/-- The offset in front of a text is what the texts before it take. -/
theorem offsetsFrom_getElem {start row : Nat} {texts : List String} (inside : row ≤ texts.length) :
    (Dictionary.offsetsFrom start texts)[row]? = some
    (start + ((texts.take row).flatMap utf8).length) := by
  induction texts generalizing start row with
  | nil =>
    obtain rfl : row = 0 := Nat.le_zero.mp inside
    simp [Dictionary.offsetsFrom]
  | cons text texts ih =>
    unfold Dictionary.offsetsFrom
    cases row with
    | zero => simp
    | succ row =>
      rw [List.getElem?_cons_succ, ih (by simpa using inside), List.take_succ_cons,
        List.flatMap_cons, List.length_append]
      congr 1
      omega

theorem signed32_of_lt {word : Nat} (small : word < 2 ^ 31) : signed32 word = word := by
  show (BitVec.ofNat 32 word).toInt = word
  have same : (BitVec.ofNat 32 word).toNat = word := by
    rw [BitVec.toNat_ofNat]
    exact Nat.mod_eq_of_lt (by omega)
  rw [BitVec.toInt_eq_toNat_of_lt (by omega), same]

theorem edgeAt_offsets {dictionary : Dictionary} {row : Nat}
    (inside : row ≤ dictionary.values.length) (size : dictionary.bytes.length < 2 ^ 31) :
    edgeAt (dictionary.offsets.flatMap (toLe 4)) row =
      ((dictionary.values.take row).flatMap utf8).length := by
  have here := @offsetsFrom_getElem 0 _ _ inside
  obtain ⟨bound, same⟩ := List.getElem?_eq_some_iff.mp here
  have below : ((dictionary.values.take row).flatMap utf8).length ≤ dictionary.bytes.length := by
    have split_ : dictionary.bytes = (dictionary.values.take row).flatMap utf8 ++
        (dictionary.values.drop row).flatMap utf8 := by
      rw [← List.flatMap_append, List.take_append_drop]
      rfl
    rw [split_, List.length_append]
    omega
  rw [edgeAt, Dictionary.offsets, wordAt_flatMap bound, same, Nat.zero_add,
    Nat.mod_eq_of_lt (by omega), signed32_of_lt (by omega)]

theorem textAt_offsets {dictionary : Dictionary} {row : Nat}
    (inside : row < dictionary.values.length) (size : dictionary.bytes.length < 2 ^ 31) :
    textAt (dictionary.offsets.flatMap (toLe 4)) dictionary.bytes row =
      some dictionary.values[row] := by
  have next : (dictionary.values.take (row + 1)).flatMap utf8 = (dictionary.values.take row).flatMap
      utf8 ++ utf8 dictionary.values[row] := by
    rw [List.take_succ_eq_append_getElem inside, List.flatMap_append]
    simp
  have whole : dictionary.bytes = (dictionary.values.take row).flatMap utf8 ++
    (utf8 dictionary.values[row] ++
      (dictionary.values.drop (row + 1)).flatMap utf8) := by
    rw [← List.append_assoc, ← next, ← List.flatMap_append, List.take_append_drop]
    rfl
  unfold textAt
  rw [edgeAt_offsets (Nat.le_of_lt inside) size, edgeAt_offsets inside size, next,
    List.length_append, if_pos (by omega)]
  simp only [Int.toNat_natCast, Nat.add_sub_cancel_left]
  rw [whole, List.drop_left, List.take_left, fromUtf8_utf8]

def Bitmap.withoutFull (validity : Option Bitmap) : Option Bitmap :=
  validity.filter fun bits => decide (bits.countSet ≠ bits.length)

def Column.withoutFullBitmap : Column F → Column F
  | f64 values validity => f64 values (Bitmap.withoutFull validity)
  | i64 values validity => i64 values (Bitmap.withoutFull validity)
  | key codes validity dictionary => key codes (Bitmap.withoutFull validity) dictionary

/-- The window of an exported node is its column's own bitmap. -/
theorem window_export {child : ArrowArray} {validity : Option Bitmap} {rows : Nat}
    (buffer : child.buffer 0 = validityPtr validity)
    (lengths : ∀ bits, validity = some bits → bits.length = rows) :
    child.window 0 rows = Bitmap.withoutFull validity := by
  cases validity with
  | none =>
    unfold ArrowArray.window
    rw [if_pos fun i _ => by rw [ArrowArray.validBit, buffer]; rfl]
    rfl
  | some bits =>
    have bit (i : Nat) : child.validBit (0 + i) = Bitmap.get bits i := by
      rw [ArrowArray.validBit, buffer, Nat.zero_add]
      exact bitAt_asBytes bits i
    have length := lengths bits rfl
    have all : ((List.range rows).map fun i => child.validBit (0 + i)) = bits := by
      refine List.ext_getElem (by simp [length]) fun i _ inside => ?_
      rw [List.getElem_map, List.getElem_range, bit, Bitmap.get, List.getD_eq_getElem?_getD,
        List.getElem?_eq_getElem inside, Option.getD_some]
    have full : (∀ i < rows, child.validBit (0 + i) = true) ↔ bits.countSet = bits.length := by
      rw [length, ← countSet_range, all]
    unfold ArrowArray.window Bitmap.withoutFull
    rw [all]
    by_cases whole : bits.countSet = bits.length
    · rw [if_pos (full.mpr whole), Option.filter_some, if_neg (by simp [whole])]
    · rw [if_neg (full.not.mpr whole), Option.filter_some, if_pos (by simp [whole])]

def wordsNode (width : Nat) (values : List Nat) (validity : Option Bitmap)
    (dictionary : Option ArrowArray) : ArrowArray :=
  newArrayNode values.length (Bitmap.nullCount validity)
    [validityPtr validity, some (values.flatMap (toLe width))] [] dictionary

section WordsNode

variable {width : Nat} {values : List Nat} {validity : Option Bitmap} {dictionary : Option ArrowArray}

theorem wordsNode_covered (lengths : ∀ bits, validity = some bits → bits.length = values.length) :
    (wordsNode width values validity dictionary).Covered width where
  table := Nat.le_refl _
  validity bits held := by
    cases validity with
    | none => cases held
    | some bitmap =>
      cases held
      have length := lengths bitmap rfl
      show (0 + (values.length : Int)).toNat ≤ _
      rw [asBytes_length]
      omega
  data data held := by
    cases held
    show width * (0 + (values.length : Int)).toNat ≤ _
    rw [flatMap_toLe_length, Int.zero_add, Int.toNat_natCast]

theorem wordsNode_fits {field : Field}
    (nullable : ∀ bits, validity = some bits → field.nullable = true) :
    (wordsNode width values validity dictionary).Fits 0 values.length field where
  live := rfl
  length := Int.natCast_nonneg _
  offset := Int.le_refl _
  long := by
    show ((0 : Nat) + (values.length : Int)) ≤ (values.length : Int)
    omega
  nulls := by
    cases validity with
    | none => exact .inr fun _ _ => rfl
    | some bits => exact .inl (nullable bits rfl)

theorem wordsNode_holds : (wordsNode width values validity dictionary).Holds values.length where
  counted := (by decide : (1 : Int) < 2)
  present _ absent := by cases absent

theorem wordsNode_word {row : Nat} (inside : row < values.length) :
    (wordsNode width values validity dictionary).word width row = values[row] % 256 ^ width :=
  wordAt_flatMap inside

/-- The words of a node's rows are the column's, when they fit. -/
theorem wordsNode_values (fit : ∀ value ∈ values, value < 256 ^ width) :
    ((List.range values.length).map fun i => (wordsNode width values validity dictionary).word width
      (0 + i)) = values := by
  refine List.ext_getElem (by simp) fun i _ inside => ?_
  rw [List.getElem_map, List.getElem_range, Nat.zero_add, wordsNode_word inside,
    Nat.mod_eq_of_lt (fit _ (List.getElem_mem inside))]

theorem wordsNode_window (lengths : ∀ bits, validity = some bits → bits.length = values.length) :
    (wordsNode width values validity dictionary).window 0 values.length =
      Bitmap.withoutFull validity := window_export rfl lengths

end WordsNode

/-! ### Exported dictionaries -/

section DictionaryNode

variable {dictionary : Dictionary}

theorem dictionaryNode_symbols (size : dictionary.bytes.length < 2 ^ 31) :
    (dictionaryNode dictionary).symbols = dictionary.values.map some := by
  have symbols : (dictionaryNode dictionary).symbols =
      (List.range dictionary.values.length).map fun i =>
        textAt (dictionary.offsets.flatMap (toLe 4)) dictionary.bytes (0 + i) := rfl
  rw [symbols]
  refine List.ext_getElem (by simp) fun i _ inside => ?_
  have bound : i < dictionary.values.length := by simpa using inside
  rw [List.getElem_map, List.getElem_range, List.getElem_map, Nat.zero_add, textAt_offsets bound size]

theorem dictionaryNode_spells (size : dictionary.bytes.length < 2 ^ 31) :
    (dictionaryNode dictionary).Spells where
  live := rfl
  length := Int.natCast_nonneg _
  offset := Int.le_refl _
  nulls := Int.le_refl _
  counted := (by decide : (2 : Int) < 3)
  readable symbol member := by
    rw [dictionaryNode_symbols size] at member
    obtain ⟨text, -, rfl⟩ := List.mem_map.mp member
    rfl
  distinct := by
    rw [dictionaryNode_symbols size]
    exact dictionary.distinct.map (Option.some_injective _)

theorem dictionaryNode_covered (size : dictionary.bytes.length < 2 ^ 31) :
    (dictionaryNode dictionary).CoveredText where
  table := Nat.le_refl _
  offsets offsets held _ := by
    cases held
    show 4 * ((0 + (dictionary.values.length : Int)).toNat + 1) ≤ _
    rw [flatMap_toLe_length, Dictionary.offsets, offsetsFrom_length, Int.zero_add, Int.toNat_natCast]
  text offsets data held held' row _ below := by
    cases held
    cases held'
    have below : row < (0 + (dictionary.values.length : Int)).toNat := below
    rw [edgeAt_offsets (by omega) size]
    have split_ : dictionary.bytes = (dictionary.values.take (row + 1)).flatMap utf8 ++
        (dictionary.values.drop (row + 1)).flatMap utf8 := by
      rw [← List.flatMap_append, List.take_append_drop]
      rfl
    rw [split_, List.length_append]
    omega

end DictionaryNode

/-! ### The round trip -/

variable [LawfulBits F]

/-- What the importer makes of an exported column. -/
structure ArrowArray.Carries (rows : Nat) (field : Field) (column : Column F)
    (child : ArrowArray) : Prop where
  covers : child.CoversField field
  fits : child.FitsField 0 rows field
  start : child.offset = 0
  rows : ∀ imported : Column F, child.Rows 0 rows field.columnType imported →
    imported = column.withoutFullBitmap

omit [LawfulBits F] in
/-- Words of eight bytes come back as the values that they are the bits of. -/
theorem numericNode_carries {α : Type} {values : List α} {validity : Option Bitmap} {field : Field}
    {column : Column F}
    {bits : α → UInt64} {g : UInt64 → α} (inverse : ∀ x, g (bits x) = x)
    (width : field.columnType.wordBytes = 8)
    (numeric : field.columnType ≠ .key)
    (lengths : ∀ bitmap, validity = some bitmap → bitmap.length = values.length ∧ field.nullable = true)
    (rows : ∀ (child : ArrowArray) (imported : Column F),
      child.window 0 values.length = Bitmap.withoutFull validity →
      ((List.range values.length).map fun i => g (UInt64.ofNat (child.word 8 (0 + i)))) = values →
      child.Rows 0 values.length field.columnType imported → imported = column.withoutFullBitmap) :
    (numericNode 8 (values.map fun x => (bits x).toNat) validity).Carries values.length
      field column := by
  have node : numericNode 8 (values.map fun x => (bits x).toNat) validity = wordsNode 8
    (values.map fun x => (bits x).toNat) validity none := rfl
  have length : (values.map fun x => (bits x).toNat).length = values.length := List.length_map _
  have lengths' : ∀ bitmap, validity = some bitmap →
      bitmap.length = (values.map fun x => (bits x).toNat).length := fun bitmap held => by
    rw [length]
    exact (lengths bitmap held).1
  have words := @wordsNode_values 8 (values.map fun x => (bits x).toNat) validity none
      fun word member => by
    obtain ⟨x, -, rfl⟩ := List.mem_map.mp member
    exact (bits x).toNat_lt
  have fits := @wordsNode_fits 8 (values.map fun x => (bits x).toNat) validity none field
    fun bitmap held => (lengths bitmap held).2
  have window := @wordsNode_window 8 (values.map fun x => (bits x).toNat) validity none lengths'
  rw [length] at words window fits
  rw [node]
  refine ⟨⟨width ▸ wordsNode_covered lengths', fun key => absurd key numeric⟩,
    ⟨fits, ?_, fun key => absurd key numeric⟩, rfl, ?_⟩
  · rw [← length]
    exact wordsNode_holds
  · refine fun imported held => rows _ imported window ?_ held
    have read := congrArg (List.map fun word => g (UInt64.ofNat word)) words
    rw [List.map_map, List.map_map] at read
    refine read.trans ((List.map_congr_left fun x _ => ?_).trans (List.map_id _))
    show g (UInt64.ofNat (bits x).toNat) = x
    rw [UInt64.ofNat_toNat, inverse]

theorem columnNode_carries {rows : Nat} {field : Field} {column : Column F}
    (binds : column.Binds rows field) (interned : column.Interned) :
    (columnNode column).Carries rows field column := by
  obtain ⟨typed, rfl, validity, codes⟩ := binds
  cases column with
  | f64 values bits =>
    have typed : field.columnType = .f64 := typed.symm
    refine numericNode_carries (g := F64.ofBits) LawfulBits.ofBits_toBits (by rw [typed]; rfl)
      (by simp [typed]) validity ?_
    intro child imported window same held
    rw [typed] at held
    refine Eq.trans held ?_
    rw [same, window]
    rfl
  | i64 values bits =>
    have typed : field.columnType = .i64 := typed.symm
    refine numericNode_carries (g := UInt64.toInt64) (fun x => Int64.toInt64_toUInt64 x)
      (by rw [typed]; rfl) (by simp [typed]) validity ?_
    intro child imported window same held
    rw [typed] at held
    refine Eq.trans held ?_
    rw [same, window]
    rfl
  | key codes' bits dictionary =>
    have typed : field.columnType = .key := typed.symm
    have size := interned _ _ _ rfl
    have assigned := codes _ _ _ rfl
    have count := dictionary.count_le
    have lengths : ∀ bitmap, bits = some bitmap → bitmap.length = codes'.length :=
      fun bitmap held => (validity bitmap held).1
    have fits := @wordsNode_fits 4 codes' bits (some (dictionaryNode dictionary)) field
      fun bitmap held => (validity bitmap held).2
    have words (i : Nat) (below : i < codes'.length) :
        (wordsNode 4 codes' bits (some (dictionaryNode dictionary))).word 4 (0 + i) = codes'[i] := by
      have := assigned _ (List.getElem_mem below)
      rw [Nat.zero_add, wordsNode_word below, Nat.mod_eq_of_lt (by omega)]
    refine ⟨⟨?_, fun _ values held => ?_⟩,
      ⟨fits, wordsNode_holds, fun _ => ⟨_, rfl, dictionaryNode_spells size, fun i below => ?_⟩⟩, rfl,
      fun imported held => ?_⟩
    · rw [typed]
      exact wordsNode_covered lengths
    · cases held
      exact dictionaryNode_covered size
    · have := assigned _ (List.getElem_mem below)
      show InRange dictionary.values.length _
        ((wordsNode 4 codes' bits (some (dictionaryNode dictionary))).word 4 (0 + i))
      rw [words i below]
      exact ⟨Nat.lt_of_le_of_lt (Nat.zero_le _) this, fun _ => this⟩
    · rw [typed] at held
      obtain ⟨values, dictionary', held, same, rfl⟩ := held
      cases held
      rw [dictionaryNode_symbols size] at same
      obtain rfl : dictionary' = dictionary :=
        Dictionary.ext_values (List.map_injective_iff.mpr (Option.some_injective _) same)
      have codes_same : ((List.range codes'.length).map fun i => sanitized dictionary'.values.length
          ((columnNode (.key codes' bits dictionary' : Column F)).validBit (0 + i))
          ((columnNode (.key codes' bits dictionary' : Column F)).word 4 (0 + i))) = codes' := by
        refine List.ext_getElem (by simp) fun i _ below => ?_
        rw [List.getElem_map, List.getElem_range]
        have word : (columnNode (.key codes' bits dictionary' : Column F)).word 4 (0 + i) =
          codes'[i] := words i below
        have := assigned _ (List.getElem_mem below)
        rw [word, sanitized, if_neg (by omega)]
      have window : (columnNode (.key codes' bits dictionary' : Column F)).window 0 codes'.length =
          Bitmap.withoutFull bits :=
        wordsNode_window lengths
      show Column.key _ _ _ = _
      rw [Column.length, codes_same, window]
      rfl

/-- A batch whose columns are as their constructors make them. -/
structure RecordBatch.Built (batch : RecordBatch F) : Prop where
  binds : List.Forall₂ (Column.Binds batch.numRows) batch.schema.fields batch.columns
  interned : ∀ column ∈ batch.columns, column.Interned

structure Column.SameRows (column other : Column F) : Prop where
  length : other.length = column.length
  valid : ∀ row < column.length, other.isValid row = column.isValid row
  cells : ∀ row < column.length, other.cellOf row = column.cellOf row

/-- The import of the export has the batch's schema and rows. -/
def RecordBatch.Recovers (batch : RecordBatch F) : Prop :=
  ∃ imported, (exportBatch batch >>= fun pair => importBatch pair.1 pair.2) = .ok imported ∧
    imported.schema = batch.schema ∧
    List.Forall₂ Column.SameRows batch.columns imported.columns

omit [F64 F] [LawfulBits F] in
theorem withoutFullBitmap_sameRows {column : Column F}
    (lengths : ∀ bits, column.validity = some bits → bits.length = column.length) :
    column.SameRows column.withoutFullBitmap := by
  have valid (row : Nat) (inside : row < column.length) :
      Bitmap.validAt (Bitmap.withoutFull column.validity) row = Bitmap.validAt column.validity row := by
    cases held : column.validity with
    | none => rfl
    | some bits =>
      have length := lengths bits held
      by_cases full : bits.countSet = bits.length
      · have set : bits[row]? = some true := by
          rw [List.getElem?_eq_getElem (length ▸ inside),
            ← List.count_eq_length.mp full _ (List.getElem_mem (length ▸ inside))]
        rw [Bitmap.withoutFull, Option.filter_some, if_neg (by simp [full]), Bitmap.validAt,
          Bitmap.validAt, Bitmap.get,
          List.getD_eq_getElem?_getD, set]
        rfl
      · rw [Bitmap.withoutFull, Option.filter_some, if_pos (by simp [full])]
  cases column <;> exact ⟨rfl, valid, fun _ _ => rfl⟩

/-- The node of each column carries it. -/
theorem exportArray_carries {batch : RecordBatch F} (built : batch.Built) {place : Field × Nat}
    (member : place ∈ batch.schema.fields.zipIdx) :
    ∃ column, batch.columns[place.2]? = some column ∧ (exportArray batch).children[place.2]? = some
      (columnNode column) ∧
      (columnNode column).Carries batch.numRows place.1 column := by
  have here := List.mem_zipIdx_iff_getElem?.mp member
  obtain ⟨column, held, binds⟩ := forall₂_get built.binds here
  refine ⟨column, held, ?_,
    columnNode_carries binds (built.interned column (List.mem_of_getElem? held))⟩
  show (batch.columns.map columnNode)[place.2]? = _
  rw [List.getElem?_map, held]
  rfl

theorem importArray_exportArray {batch : RecordBatch F} (built : batch.Built) :
    ∃ imported, importArray batch.schema (exportArray batch) = .ok imported ∧
    imported.schema = batch.schema ∧
      imported.columns = batch.columns.map Column.withoutFullBitmap := by
  have count : batch.schema.fields.length = batch.columns.length := built.binds.length_eq
  have covers : (exportArray batch).CoversBatch batch.schema := by
    refine ⟨?_, fun place member child held => ?_⟩
    · show ((batch.columns.map columnNode).length : Int).toNat ≤ _
      exact Nat.le_refl _
    · obtain ⟨column, -, here, carries⟩ := exportArray_carries built member
      rw [here] at held
      cases held
      exact carries.covers
  have fits : (exportArray batch).FitsBatch batch.schema := by
    refine ⟨rfl, ?_, Int.natCast_nonneg _, Int.le_refl _, Int.le_refl _, fun place member => ?_⟩
    · show ((batch.columns.map columnNode).length : Int) = _
      rw [List.length_map, count]
    · obtain ⟨column, -, here, carries⟩ := exportArray_carries built member
      exact ⟨_, here, carries.fits⟩
  obtain ⟨imported, gives, schema, rows⟩ := (importArray_decides (F := F) covers).accepts fits
  refine ⟨imported, gives, schema, ?_⟩
  have length := rows.length_eq
  rw [List.length_zipIdx] at length
  refine List.ext_getElem (by rw [List.length_map, ← length, count]) fun i inside inside' => ?_
  have bound : i < batch.schema.fields.zipIdx.length := by
    rw [List.length_zipIdx]
    exact length ▸ inside
  obtain ⟨child, held, row⟩ := rows.get bound inside
  simp only [List.get_eq_getElem] at held row
  obtain ⟨column, here, node, carries⟩ := exportArray_carries built (List.getElem_mem bound)
  rw [node] at held
  cases held
  have same := carries.rows _ (by
    rw [carries.start] at row
    exact row)
  rw [same, List.getElem_map]
  congr 1
  have position : (batch.schema.fields.zipIdx[i]).2 = i := by simp
  rw [position, List.getElem?_eq_getElem (by simpa using inside')] at here
  exact (Option.some.inj here).symm

theorem recovers_iff {batch : RecordBatch F} (built : batch.Built) : batch.Recovers ↔
    ∀ field ∈ batch.schema.fields, field.Portable := by
  constructor
  · rintro ⟨imported, gives, -⟩
    obtain ⟨pair, exported, -⟩ := except_bind_ok gives
    unfold exportBatch at exported
    obtain ⟨node, exported, -⟩ := except_bind_ok exported
    exact portable_of_exportSchema exported
  · intro portable
    obtain ⟨node, exported, parsed⟩ := parseSchema_exportSchema portable
    obtain ⟨imported, gives, schema, columns⟩ := importArray_exportArray built
    refine ⟨imported, ?_, schema, ?_⟩
    · rw [exportBatch, exported]
      show (importBatch node (exportArray batch) : Result ImportError (RecordBatch F)) = _
      rw [importBatch, parsed]
      exact gives
    · rw [columns, List.forall₂_map_right_iff]
      have bound := (Column.Binds.all built.binds).1
      refine List.forall₂_same.mpr fun column member => withoutFullBitmap_sameRows fun bits held => ?_
      obtain ⟨index, inside, rfl⟩ := List.getElem_of_mem member
      rw [bound _ member]
      exact ((built.binds.get (built.binds.length_eq ▸ inside) inside).validity bits held).1

/-! ### Foreign batches -/

/-- A struct node that declares a null in the rows it gives. -/
def ArrowArray.StructNulls (array : ArrowArray) : Prop :=
  ∃ row < array.length.toNat, array.validBit (array.offset.toNat + row) = false

def ArrowArray.nullRows (array : ArrowArray) : Nat :=
  (List.range array.length.toNat).countP fun row => !array.validBit (array.offset.toNat + row)

/-- What the importer must refuse in a dictionary that rows with these codes use. -/
def ArrowArray.Ambiguous (start rows : Nat) (child values : ArrowArray) : Prop :=
  values.length < 0 ∨ values.offset < 0 ∨ ¬ values.symbols.Nodup ∨
    ∃ i < rows, child.validBit (start + i) = true ∧ values.length.toNat ≤ child.word 4 (start + i)

def ArrowArray.DefectiveChild (rootOffset rows : Nat) (field : Field) (child : ArrowArray) : Prop :=
  child.length < 0 ∨ child.offset < 0 ∨ child.length < rootOffset + rows ∨
    (field.nullable = false ∧ ∃ i < rows,
      child.validBit (child.offset.toNat + rootOffset + i) = false) ∨
    (field.columnType = .key ∧ ∃ values, child.dictionary = some values ∧
      child.Ambiguous (child.offset.toNat + rootOffset) rows values)

def ArrowArray.Defective (schema : Schema) (array : ArrowArray) : Prop :=
  array.length < 0 ∨ array.offset < 0 ∨ array.StructNulls ∨ ∃ place ∈ schema.fields.zipIdx, ∃ child,
    array.children[place.2]? = some child ∧
    child.DefectiveChild array.offset.toNat array.length.toNat place.1

/-- A dictionary that the importer can read: no null among its values, and a text for each. It may
only be empty when no row uses it. -/
structure ArrowArray.SupportedText (rows : Nat) (values : ArrowArray) : Prop where
  live : values.live = true
  nulls : values.nullCount ≤ 0
  counted : 2 < values.nBuffers
  readable : ∀ symbol ∈ values.symbols, symbol.isSome = true
  used : 0 < rows → 0 < values.length

structure ArrowArray.Supported (schema : Schema) (array : ArrowArray) : Prop where
  live : array.live = true
  count : array.nChildren = schema.fields.length
  children : ∀ place ∈ schema.fields.zipIdx, ∃ child, array.children[place.2]? = some child ∧
    child.live = true ∧
    child.Holds array.length.toNat ∧
      (place.1.columnType = .key → ∃ values, child.dictionary = some values ∧
      values.SupportedText array.length.toNat)

/-- A schema and a struct array that keep to the interface: tables and buffers cover what is
declared, and the null count is right or unknown. -/
structure WellFormed (node : ArrowSchema) (array : ArrowArray) : Prop where
  table : node.nChildren.toNat ≤ node.children.length
  covers : ∀ schema, parseSchema node = .ok schema → array.CoversBatch schema
  counted : array.nullCount = -1 ∨ array.nullCount = array.nullRows

def ArrowArray.GivesRows (array : ArrowArray) (batch : RecordBatch F) : Prop :=
  batch.columns.length = batch.schema.fields.length ∧ ∀ (i : Nat) (field : Field) (column : Column F),
    batch.schema.fields[i]? = some field → batch.columns[i]? = some column → ∃ child : ArrowArray,
      array.children[i]? = some child ∧ column.length = array.length.toNat ∧
      ∀ row < array.length.toNat,
        column.isValid row = child.validBit (child.offset.toNat + array.offset.toNat + row) ∧
        (column.isValid row = true →
          column.cellOf row = child.cellOf field.columnType
          (child.offset.toNat + array.offset.toNat + row))

variable (F) in
/-- The importer does as it should with a foreign array. -/
structure Honours (node : ArrowSchema) (array : ArrowArray) : Prop where
  safe : ¬ Panicked (importBatch node array : Result ImportError (RecordBatch F))
  accepts : ∀ schema, parseSchema node = .ok schema → array.Supported schema →
    ¬ array.Defective schema →
    ∃ batch : RecordBatch F, importBatch node array = .ok batch
  rows : ∀ batch : RecordBatch F, importBatch node array = .ok batch →
    parseSchema node = .ok batch.schema ∧ array.GivesRows batch
  refuses : ∀ schema, parseSchema node = .ok schema → array.Defective schema →
    ∃ error, (importBatch node array : Result ImportError (RecordBatch F)) = .error (.refused error)

/-- Struct nulls behind a null count that is unknown, in an array with nothing else to refuse. -/
def Overlooked (node : ArrowSchema) (array : ArrowArray) : Prop :=
  array.nullCount = -1 ∧ array.StructNulls ∧ ∃ schema, parseSchema node = .ok schema ∧
    array.FitsBatch schema

omit [LawfulBits F] in
theorem ArrowArray.Rows.cells {field : Field} {child : ArrowArray} {rootOffset rows : Nat}
    {column : Column F}
    (fits : child.FitsField rootOffset rows field)
    (holds : child.Rows (child.offset.toNat + rootOffset) rows field.columnType column) :
    ∀ row < rows, column.isValid row = child.validBit (child.offset.toNat + rootOffset + row) ∧
      (column.isValid row = true →
        column.cellOf row = child.cellOf field.columnType (child.offset.toNat + rootOffset + row)) := by
  intro row below
  have window := @window_validAt child (child.offset.toNat + rootOffset) rows row below
  unfold ArrowArray.Rows at holds
  split at holds
  · next typed =>
    subst holds
    refine ⟨window, fun _ => ?_⟩
    rw [typed, Column.cellOf, List.getElem?_map, List.getElem?_range below]
    rfl
  · next typed =>
    subst holds
    refine ⟨window, fun _ => ?_⟩
    rw [typed, Column.cellOf, List.getElem?_map, List.getElem?_range below]
    rfl
  · next typed =>
    obtain ⟨values, dictionary, held, same, rfl⟩ := holds
    refine ⟨window, fun valid => ?_⟩
    have valid := window.symm.trans valid
    obtain ⟨values', held', -, inRange⟩ := fits.coded typed
    rw [held] at held'
    cases held'
    have assigned := (inRange row below).2 valid
    rw [← symbols_length same] at assigned
    have symbol : values.text
      (values.offset.toNat + child.word 4 (child.offset.toNat + rootOffset + row)) =
        some (dictionary.values[child.word 4 (child.offset.toNat + rootOffset + row)]) := by
      have here := congrArg (fun symbols =>
        symbols[child.word 4 (child.offset.toNat + rootOffset + row)]?) same
      simp only [ArrowArray.symbols, List.getElem?_map] at here
      rw [List.getElem?_eq_getElem assigned, List.getElem?_range (by
          rw [symbols_length same] at assigned
          exact assigned)] at here
      exact (Option.some.inj here).symm
    rw [typed, Column.cellOf, List.getElem?_map, List.getElem?_range below, ArrowArray.cellOf, held,
      Option.bind_some, symbol]
    rw [Option.map_some, Option.map_some, Option.map_some, sanitized, if_neg (by simp [valid]),
      Dictionary.value,
      List.getD_eq_getElem?_getD, List.getElem?_eq_getElem assigned]
    rfl

theorem ArrowArray.FitsField.supported {rootOffset rows : Nat} {field : Field} {child : ArrowArray}
    (live : child.live = true)
    (holds : child.Holds rows)
    (text : field.columnType = .key → ∃ values, child.dictionary = some values ∧
      values.SupportedText rows)
    (sound : ¬ child.DefectiveChild rootOffset rows field) : child.FitsField rootOffset rows field := by
  unfold ArrowArray.DefectiveChild at sound
  simp only [not_or] at sound
  obtain ⟨length, offset, long, nulls, dictionary⟩ := sound
  refine ⟨⟨live, by omega, by omega, by omega, ?_⟩, holds, fun key => ?_⟩
  · cases nullable : field.nullable with
    | true => exact .inl rfl
    | false =>
      refine .inr fun i below => ?_
      by_contra gap
      exact nulls ⟨nullable, i, below, Bool.eq_false_iff.mpr gap⟩
  · obtain ⟨values, held, live, noNulls, counted, readable, used⟩ := text key
    have clear : ¬ child.Ambiguous (child.offset.toNat + rootOffset) rows values :=
      fun bad => dictionary ⟨key, values, held, bad⟩
    unfold ArrowArray.Ambiguous at clear
    simp only [not_or] at clear
    obtain ⟨length, offset, distinct, codes⟩ := clear
    refine ⟨values, held, ⟨live, by omega, by
        omega, noNulls, counted, readable, not_not.mp distinct⟩, fun i below => ⟨?_, fun valid => ?_⟩⟩
    · have := used (by omega)
      omega
    · by_contra beyond
      exact codes ⟨i, below, valid, by omega⟩

theorem ArrowArray.FitsField.sound {rootOffset rows : Nat} {field : Field} {child : ArrowArray}
    (fits : child.FitsField rootOffset rows field) :
    ¬ child.DefectiveChild rootOffset rows field := by
  obtain ⟨⟨-, length, offset, long, nulls⟩, -, coded⟩ := fits
  rintro (negative | negative | short | ⟨declared, i, below, gap⟩ | ⟨key, values, held, bad⟩)
  · omega
  · omega
  · omega
  · rcases nulls with nullable | full
    · rw [declared] at nullable
      cases nullable
    · rw [full i below] at gap
      cases gap
  · obtain ⟨values', held', spells, inRange⟩ := coded key
    rw [held] at held'
    cases held'
    rcases bad with negative | negative | repeats | ⟨i, below, valid, beyond⟩
    · exact absurd spells.length (by omega)
    · exact absurd spells.offset (by omega)
    · exact repeats spells.distinct
    · exact absurd ((inRange i below).2 valid) (by omega)

theorem structNulls_iff {array : ArrowArray} : array.StructNulls ↔ 0 < array.nullRows := by
  unfold ArrowArray.StructNulls ArrowArray.nullRows
  rw [List.countP_pos_iff]
  simp

theorem ArrowArray.Supported.fits {schema : Schema} {array : ArrowArray}
    (supported : array.Supported schema)
    (counted : array.nullCount = -1 ∨ array.nullCount = array.nullRows)
    (sound : ¬ array.Defective schema) : array.FitsBatch schema := by
  unfold ArrowArray.Defective at sound
  simp only [not_or] at sound
  obtain ⟨length, offset, nulls, children⟩ := sound
  rw [structNulls_iff] at nulls
  refine ⟨supported.live, supported.count, by omega, by omega, by omega, fun place member => ?_⟩
  obtain ⟨child, held, live, holds, text⟩ := supported.children place member
  exact ⟨child, held, .supported live holds text fun bad => children ⟨place, member, child, held, bad⟩⟩

theorem ArrowArray.FitsBatch.sound {schema : Schema} {array : ArrowArray}
    (fits : array.FitsBatch schema) (clean : ¬ array.StructNulls) :
    ¬ array.Defective schema := by
  rintro (negative | negative | nulls | ⟨place, member, child, held, bad⟩)
  · exact absurd fits.length (by omega)
  · exact absurd fits.offset (by omega)
  · exact clean nulls
  · obtain ⟨child', held', column⟩ := fits.columns place member
    rw [held] at held'
    cases held'
    exact column.sound bad

omit [LawfulBits F] in
theorem ArrowArray.BatchRows.gives {schema : Schema} {array : ArrowArray} {batch : RecordBatch F}
    (fits : array.FitsBatch schema)
    (rows : array.BatchRows schema batch) : array.GivesRows batch := by
  obtain ⟨rfl, related⟩ := rows
  refine ⟨by rw [← related.length_eq, List.length_zipIdx], fun i field column here held => ?_⟩
  have place : batch.schema.fields.zipIdx[i]? = some (field, i) := by
    rw [List.getElem?_zipIdx, here]
    simp
  obtain ⟨column', held', child, node, row⟩ := forall₂_get related place
  rw [held] at held'
  cases held'
  obtain ⟨child', node', column_fits⟩ := fits.columns _ (List.mem_of_getElem? place)
  rw [node] at node'
  cases node'
  exact ⟨child, node, (row.binds column_fits).length, row.cells column_fits⟩

omit [LawfulBits F] in
theorem importBatch_eq {node : ArrowSchema} {array : ArrowArray} {schema : Schema}
    (parsed : parseSchema node = .ok schema) :
    (importBatch node array : Result ImportError (RecordBatch F)) = importArray schema array := by
  rw [importBatch, parsed]
  rfl

omit [LawfulBits F] in
theorem honours_iff {node : ArrowSchema} {array : ArrowArray} (wellFormed : WellFormed node array) :
    Honours F node array ↔ ¬ Overlooked node array := by
  obtain ⟨table, covers, counted⟩ := wellFormed
  constructor
  · rintro honours ⟨-, nulls, schema, parsed, fits⟩
    obtain ⟨error, refused⟩ := honours.refuses schema parsed (.inr (.inr (.inl nulls)))
    rw [importBatch_eq parsed] at refused
    exact (importArray_decides (F := F) (covers schema parsed)).refused_iff.mp ⟨error, refused⟩ fits
  · intro seen
    refine ⟨?_, fun schema parsed supported sound => ?_, fun batch gives => ?_,
      fun schema parsed defective => ?_⟩
    · refine not_panicked_bind (parseSchema_not_panicked table) fun schema parsed => ?_
      exact (importArray_decides (covers schema parsed)).not_panicked
    · rw [importBatch_eq parsed]
      exact (importArray_decides (covers schema parsed)).ok_iff.mpr (supported.fits counted sound)
    · obtain ⟨schema, parsed, gives⟩ := except_bind_ok gives
      obtain ⟨fits, rows⟩ := (importArray_decides (covers schema parsed)).of_ok gives
      exact ⟨rows.1 ▸ parsed, rows.gives fits⟩
    · rw [importBatch_eq parsed]
      refine (importArray_decides (covers schema parsed)).refused_iff.mpr fun fits => ?_
      have clean : ¬ array.StructNulls := fun nulls => by
        have some := structNulls_iff.mp nulls
        have := fits.nulls
        exact seen ⟨by omega, nulls, schema, parsed, fits⟩
      exact fits.sound clean defective

/-- Batches and foreign arrays cross the interface as they should, unless the interface cannot
describe a field, or an array hides its nulls. -/
theorem interchange_iff :
    (∀ batch : RecordBatch F, batch.Built →
      (batch.Recovers ↔ ∀ field ∈ batch.schema.fields, field.Portable)) ∧
    ∀ node array, WellFormed node array → (Honours F node array ↔ ¬ Overlooked node array) :=
  ⟨fun _ built => recovers_iff built, fun _ _ wellFormed => honours_iff wellFormed⟩

def slicedNode : ArrowSchema where
  format := some (utf8 "+s")
  name := none
  flags := 0
  nChildren := 1
  children := [⟨some (utf8 "I"), some (utf8 "venue"), arrowFlagNullable, 0, [],
    some ⟨some (utf8 "u"), none, 0, 0, [], none, true⟩, true⟩]
  dictionary := none
  live := true

def slicedSchema : Schema := ⟨[.new "venue" .key true]⟩

/-- Four codes, of which the last is garbage under a null; the dictionary starts at its second text.
-/
def slicedChild : ArrowArray where
  length := 3
  nullCount := 1
  offset := 1
  nBuffers := 2
  nChildren := 0
  buffers := [some [0x07], some ([9, 9, 1, 7].flatMap (toLe 4))]
  children := []
  dictionary := some ⟨2, 0, 1, 3, 0,
    [none, some ([0, 1, 2, 4].flatMap (toLe 4)), some (utf8 "xabc")], [], none, true⟩
  live := true

def slicedArray : ArrowArray where
  length := 2
  nullCount := 0
  offset := 1
  nBuffers := 1
  nChildren := 1
  buffers := [none]
  children := [slicedChild]
  dictionary := none
  live := true

def quantityBatch (name : String) : RecordBatch UInt64 :=
  ⟨⟨[.new name .i64 false]⟩, [.i64 [7, -7] none]⟩

theorem quantityBatch_built (name : String) : (quantityBatch name).Built where
  binds := by
    refine .cons ⟨rfl, rfl, fun bits held => ?_, fun codes validity dictionary same => ?_⟩ .nil
    · cases held
    · cases same
  interned column member := by
    obtain rfl := List.mem_singleton.mp member
    exact fun _ _ _ same => by cases same

theorem slicedNode_parses : parseSchema slicedNode = .ok slicedSchema := by rfl

theorem slicedChild_covers : slicedChild.CoversField (.new "venue" .key true) where
  covered := by
    refine ⟨by decide, fun bits held => ?_, fun data held => ?_⟩
    · cases held
      decide
    · cases held
      decide
  text _ values held := by
    cases held
    refine ⟨by decide, fun offsets held _ => by
        cases held
        decide, fun offsets data held held' row above below => ?_⟩
    cases held
    cases held'
    obtain rfl | rfl : row = 1 ∨ row = 2 := by
      have above : 1 ≤ row := above
      have below : row < 3 := below
      omega
    · decide
    · decide

theorem slicedArray_wellFormed : WellFormed slicedNode slicedArray where
  table := by decide
  covers schema parsed := by
    rw [slicedNode_parses] at parsed
    cases parsed
    refine ⟨by decide, fun place member child held => ?_⟩
    obtain rfl : place = (.new "venue" .key true, 0) := List.mem_singleton.mp member
    cases held
    exact slicedChild_covers
  counted := by decide

theorem sliced_honoured : (quantityBatch "qty").Recovers ∧ Honours UInt64 slicedNode slicedArray :=
  ⟨(interchange_iff.1 _ (quantityBatch_built "qty")).mpr fun field member => by
      obtain rfl := List.mem_singleton.mp member
      exact ⟨by decide, fun scale same => by cases same⟩,
    (interchange_iff.2 _ _ slicedArray_wellFormed).mpr fun overlooked => by
      have unknown := overlooked.1
      revert unknown
      decide⟩

/-- A struct whose only row is null, which it does not count. -/
def hiddenNode : ArrowSchema where
  format := some (utf8 "+s")
  name := none
  flags := 0
  nChildren := 1
  children := [⟨some (utf8 "l"), some (utf8 "qty"), 0, 0, [], none, true⟩]
  dictionary := none
  live := true

def hiddenArray : ArrowArray where
  length := 1
  nullCount := -1
  offset := 0
  nBuffers := 1
  nChildren := 1
  buffers := [some [0]]
  children := [⟨1, 0, 0, 2, 0, [none, some (toLe 8 5)], [], none, true⟩]
  dictionary := none
  live := true

theorem hiddenNode_parses : parseSchema hiddenNode = .ok ⟨[.new "qty" .i64 false]⟩ := by rfl

theorem hiddenArray_wellFormed : WellFormed hiddenNode hiddenArray where
  table := by decide
  covers schema parsed := by
    rw [hiddenNode_parses] at parsed
    cases parsed
    refine ⟨by decide, fun place member child held => ?_⟩
    obtain rfl : place = (.new "qty" .i64 false, 0) := List.mem_singleton.mp member
    cases held
    refine ⟨⟨by decide, fun bits held => ?_, fun data held => ?_⟩, fun key => ?_⟩
    · cases held
    · cases held
      decide
    · cases key
  counted := by decide

/-- A name with a NUL has no C string, and a null that is not counted is imported as a value. -/
theorem nul_and_hidden : (¬ (quantityBatch "q\x00ty").Recovers) ∧
    WellFormed hiddenNode hiddenArray ∧ ¬ Honours UInt64 hiddenNode hiddenArray := by
  refine ⟨fun recovers => ?_, hiddenArray_wellFormed, fun honours => ?_⟩
  · have portable := (recovers_iff (quantityBatch_built "q\x00ty")).mp recovers _ List.mem_cons_self
    exact portable.name (by decide)
  · refine (honours_iff hiddenArray_wellFormed).mp honours ⟨rfl, ⟨0, by decide, by decide⟩, _,
      hiddenNode_parses, ?_⟩
    refine ⟨rfl, rfl, by decide, by decide, by decide, fun place member => ?_⟩
    obtain rfl : place = (.new "qty" .i64 false, 0) := List.mem_singleton.mp member
    refine ⟨_, rfl, ⟨rfl, by decide, by decide, by decide, .inr fun i below => rfl⟩,
      ⟨by decide, fun _ absent => ?_⟩, fun key => ?_⟩
    · cases absent
    · cases key

end TallyDB
