import TallyDB.ArrowLite.CData
import TallyDB.Logic.Except
import TallyDB.StorageLite.Decoded
import TallyDB.Wire.Verdict

/-!
# Importing over the C interface

What a node holds at a physical row, what the importer accepts, and what it makes of the
rows. Each step of the importer has one verdict, which rules out every failed check.
-/

namespace TallyDB

open Wire

/-! ### What a node holds -/

def bitAt (bits : Bytes) (position : Nat) : Bool := (ofLe bits).testBit position

def wordAt (buffer : Bytes) (width position : Nat) : Nat :=
  ofLe ((buffer.drop (width * position)).take width)

def edgeAt (offsets : Bytes) (position : Nat) : Int := signed32 (wordAt offsets 4 position)

/-- A value's text, when its offsets are in order and it is UTF-8. -/
def textAt (offsets data : Bytes) (position : Nat) : Option String :=
  if 0 ≤ edgeAt offsets position ∧ edgeAt offsets position ≤ edgeAt offsets (position + 1) then
    fromUtf8 ((data.drop (edgeAt offsets position).toNat).take
      ((edgeAt offsets (position + 1)).toNat - (edgeAt offsets position).toNat))
  else none

namespace ArrowArray

def buffer (array : ArrowArray) (position : Nat) : Option Bytes := array.buffers[position]?.join

def validBit (array : ArrowArray) (row : Nat) : Bool :=
  (array.buffer 0).elim true fun bits => bitAt bits row

def word (array : ArrowArray) (width row : Nat) : Nat :=
  (array.buffer 1).elim 0 fun data => wordAt data width row

def text (values : ArrowArray) (row : Nat) : Option String :=
  (values.buffer 1).bind fun offsets => (values.buffer 2).bind fun data => textAt offsets data row

def symbols (values : ArrowArray) : List (Option String) :=
  (List.range values.length.toNat).map fun i => values.text (values.offset.toNat + i)

def physicalEnd (array : ArrowArray) : Nat := (array.offset + array.length).toNat

def window (array : ArrowArray) (start rows : Nat) : Option Bitmap :=
  if ∀ i < rows, array.validBit (start + i) =
    true then none else some ((List.range rows).map fun i => array.validBit (start + i))

/-- The pointer table and the first two buffers cover what the node declares. -/
structure Covered (width : Nat) (array : ArrowArray) : Prop where
  table : array.nBuffers.toNat ≤ array.buffers.length
  validity : ∀ bits, array.buffer 0 = some bits → array.physicalEnd ≤ 8 * bits.length
  data : ∀ data, array.buffer 1 = some data → width * array.physicalEnd ≤ data.length

/-- The buffers of a dictionary's values cover what they declare. -/
structure CoveredText (values : ArrowArray) : Prop where
  table : values.nBuffers.toNat ≤ values.buffers.length
  offsets : ∀ offsets, values.buffer 1 = some offsets → 0 < values.length →
    4 * (values.physicalEnd + 1) ≤ offsets.length
  text : ∀ offsets data, values.buffer 1 = some offsets → values.buffer 2 = some data →
    ∀ row, values.offset.toNat ≤ row → row < values.physicalEnd → edgeAt offsets (row + 1) ≤ data.length

end ArrowArray

/-- What a row holds. -/
inductive ArrowCell (F : Type) where
  | f64 (value : F)
  | i64 (value : Int64)
  | key (symbol : String)

def ArrowArray.cellOf {F : Type} [F64 F] (columnType : ColumnType) (child : ArrowArray)
    (row : Nat) : Option (ArrowCell F) :=
  match columnType with
  | .f64 => some (.f64 (F64.ofBits (UInt64.ofNat (child.word 8 row))))
  | .i64 => some (.i64 (UInt64.ofNat (child.word 8 row)).toInt64)
  | .key =>
      (child.dictionary.bind fun values => values.text (values.offset.toNat + child.word 4 row)).map
        .key

def Column.cellOf {F : Type} (column : Column F) (row : Nat) : Option (ArrowCell F) :=
  match column with
  | f64 values _ => values[row]?.map .f64
  | i64 values _ => values[row]?.map .i64
  | key codes _ dictionary => codes[row]?.map fun code => .key (dictionary.value code)

/-! ### Reading -/

theorem readWord_decides {buffer : Bytes} {width position : Nat}
    (inside : width * (position + 1) ≤ buffer.length) :
    Decides (readWord buffer width position) True (· = wordAt buffer width position) := by
  refine .of_eq ?_
  rw [readWord, check, decide_eq_true inside]
  rfl

theorem validityBit_decides {bits : Bytes} {position : Nat} (inside : position < 8 * bits.length) :
    Decides (validityBit bits position) True (· = bitAt bits position) := by
  have bound : position / 8 < bits.length := by omega
  refine .of_eq ?_
  have bit : decide (bits[position / 8].toNat >>> (position % 8) &&& 1 = 1) =
      (ofLe bits).testBit position := by
    rw [getElem_ofLe bound, show (256 : Nat) = 2 ^ 8 from rfl, ← Nat.pow_mul, Nat.and_one_is_mod,
      ← Nat.testBit_zero,
      Nat.testBit_shiftRight, Nat.testBit_mod_two_pow, Nat.testBit_div_two_pow, Nat.add_zero,
      decide_eq_true (Nat.mod_lt position (by decide)), Bool.true_and, Nat.mod_add_div]
  rw [validityBit, index, List.getElem?_eq_getElem bound, bitAt, ← bit]
  rfl

theorem usize_decides (value : Int) (message : String) : Decides (usize value message) (0 ≤ value)
      (· = value.toNat) := by
  unfold usize
  split
  · next negative => exact .refuse _ (by omega)
  · next => exact .pure (by omega) rfl

theorem ensure_decides {condition : Bool} (message : String) : Decides (ensure condition message)
      (condition = true) (fun _ => True) := by
  cases condition with
  | false => exact .refuse _ Bool.noConfusion
  | true => exact .pure rfl trivial

theorem rows_decide {ε α : Type} {f : Nat → Result ε α} {g : Nat → α} {rows : Nat} {accept : Nat → Prop}
    (each : ∀ i < rows, Decides (f i) (accept i) (· = g i)) :
    Decides ((List.range rows).mapM f) (∀ i < rows, accept i) (· = (List.range rows).map g) := by
  refine (Decides.mapM fun i member => each i (List.mem_range.mp member)).congr
    (by simp) fun values _ related => ?_
  exact forall₂_map_eq (related.flip.imp fun _ _ same => same.symm)

theorem rows_read {ε α : Type} {f : Nat → Result ε α} {g : Nat → α} {rows : Nat}
    (each : ∀ i < rows, Decides (f i) True (· = g i)) :
    Decides ((List.range rows).mapM f) True (· = (List.range rows).map g) :=
  (rows_decide each).congr (by simp) fun _ _ same => same

theorem bufferAt_decides {array : ArrowArray} (position : Nat) (what : String)
    (table : array.nBuffers.toNat ≤ array.buffers.length) :
    Decides (bufferAt array position what) (position < array.nBuffers) (· = array.buffer position) := by
  unfold bufferAt
  refine (ensure_decides _).bind (fun counted => decide_eq_true (by omega)) fun _ counted _ => ?_
  have inside : position < array.nBuffers.toNat := of_decide_eq_true counted
  rw [index, ArrowArray.buffer, List.getElem?_eq_getElem (Nat.lt_of_lt_of_le inside table)]
  exact .pure (by omega) rfl

theorem countSet_range {bit : Nat → Bool} {rows : Nat} :
    Bitmap.countSet ((List.range rows).map bit) = rows ↔ ∀ i < rows, bit i = true := by
  have whole := @List.count_eq_length _ _ _ true ((List.range rows).map bit)
  rw [List.length_map, List.length_range] at whole
  rw [Bitmap.countSet, whole]
  constructor
  · intro all i below
    exact (all _ (List.mem_map_of_mem (List.mem_range.mpr below))).symm
  · intro all value member
    obtain ⟨i, below, rfl⟩ := List.mem_map.mp member
    exact (all i (List.mem_range.mp below)).symm

theorem readValidity_decides {child : ArrowArray} {start rows : Nat}
    (inside : ∀ bits, child.buffer 0 = some bits → start + rows ≤ 8 * bits.length) :
    Decides (readValidity (child.buffer 0) start rows) True (· = child.window start rows) := by
  cases held : child.buffer 0 with
  | none =>
    refine .of_eq ?_
    rw [readValidity, ArrowArray.window, if_pos fun i _ => by rw [ArrowArray.validBit, held]; rfl]
  | some bits =>
    have bit (i : Nat) : child.validBit (start + i) = bitAt bits (start + i) := by
      rw [ArrowArray.validBit, held]
      rfl
    have read : Decides ((List.range rows).mapM fun i => validityBit bits (start + i)) True
        (· = (List.range rows).map fun i => child.validBit (start + i)) := by
      refine rows_read fun i below => ?_
      rw [bit]
      exact validityBit_decides (by have := inside bits held; omega)
    refine read.bind id fun bitmap _ same => .pure trivial ?_
    rw [ArrowArray.window, ← same]
    simp only [same, countSet_range]

/-! ### One column -/

/-- Whether a node can give the rows of a field. -/
structure ArrowArray.Fits (rootOffset rows : Nat) (field : Field) (child : ArrowArray) : Prop where
  live : child.live = true
  length : 0 ≤ child.length
  offset : 0 ≤ child.offset
  long : (rootOffset + rows : Int) ≤ child.length
  nulls : field.nullable = true ∨ ∀ i < rows,
    child.validBit (child.offset.toNat + rootOffset + i) = true

theorem ArrowArray.Fits.inside {rootOffset rows : Nat} {field : Field} {child : ArrowArray}
    (fits : child.Fits rootOffset rows field) :
    child.offset.toNat + rootOffset + rows ≤ child.physicalEnd := by
  obtain ⟨-, length, offset, long, -⟩ := fits
  unfold ArrowArray.physicalEnd
  omega

theorem ArrowArray.window_isNone {child : ArrowArray} {start rows : Nat} :
    (child.window start rows).isNone = true ↔ ∀ i < rows, child.validBit (start + i) = true := by
  unfold window
  split
  · next full => exact iff_of_true rfl full
  · next gap => exact iff_of_false Bool.noConfusion gap

theorem childGeometry_decides {field : Field} {child : ArrowArray} {rootOffset rows width : Nat}
    (covered : child.Covered width) :
    Decides (childGeometry field child rootOffset rows (child.buffer 0))
      (child.Fits rootOffset rows field)
      (· = ⟨child.offset.toNat + rootOffset, rows,
        child.window (child.offset.toNat + rootOffset) rows⟩) := by
  unfold childGeometry
  refine (ensure_decides _).bind ArrowArray.Fits.live fun _ live _ => ?_
  refine (usize_decides _ _).bind ArrowArray.Fits.length fun length positive same => ?_
  refine (usize_decides _ _).bind ArrowArray.Fits.offset fun offset positive' same' => ?_
  subst same same'
  refine (ensure_decides _).bind (fun fits => decide_eq_true (by have := fits.long; omega))
    fun _ long _ => ?_
  have long := of_decide_eq_true long
  refine (readValidity_decides fun bits held => ?_).bind (fun _ => trivial) fun validity _ same => ?_
  · have := covered.validity bits held
    rw [ArrowArray.physicalEnd] at this
    omega
  · subst same
    have nulls : ((child.window (child.offset.toNat + rootOffset) rows).isNone || field.nullable) =
      true ↔
        (field.nullable = true ∨ ∀ i < rows,
          child.validBit (child.offset.toNat + rootOffset + i) = true) := by
      rw [Bool.or_eq_true, ArrowArray.window_isNone, or_comm]
    refine (ensure_decides _).bind (fun fits => nulls.mpr fits.nulls) fun _ allowed _ => ?_
    exact .pure ⟨live, positive, positive', by omega, nulls.mp allowed⟩ rfl

/-- Whether a node has the buffer that the values of its rows are in. -/
structure ArrowArray.Holds (rows : Nat) (child : ArrowArray) : Prop where
  counted : 1 < child.nBuffers
  present : 0 < rows → child.buffer 1 ≠ none

theorem copyValues_decides {child : ArrowArray} {width : Nat} {geo : ChildGeometry}
    (covered : child.Covered width)
    (inside : geo.start + geo.rows ≤ child.physicalEnd) :
    Decides (copyValues width child geo) (child.Holds geo.rows)
      (· = (List.range geo.rows).map fun i => child.word width (geo.start + i)) := by
  unfold copyValues
  refine (bufferAt_decides 1 _ covered.table).bind ArrowArray.Holds.counted fun data counted same => ?_
  subst same
  cases held : child.buffer 1 with
  | none =>
    by_cases some : 0 < geo.rows
    · simp only [if_pos some]
      exact .refuse _ fun holds => holds.present some held
    · simp only [if_neg some]
      refine .pure ⟨counted, fun more => absurd more some⟩ ?_
      rw [show geo.rows = 0 by omega]
      rfl
  | some data =>
    have read : Decides ((List.range geo.rows).mapM fun i => readWord data width (geo.start + i)) True
        (· = (List.range geo.rows).map fun i => child.word width (geo.start + i)) := by
      refine rows_read fun i below => ?_
      rw [ArrowArray.word, held]
      refine readWord_decides (Nat.le_trans (Nat.mul_le_mul_left width ?_) (covered.data data held))
      omega
    exact read.congr (iff_true_intro ⟨counted, fun _ => by simp [held]⟩) fun _ _ same => same

/-! ### Dictionaries -/

theorem signed32_lt (word : Nat) : signed32 word < 2 ^ 31 := Int32.toInt_lt _

theorem valueText_decides {offsets data : Bytes} {position : Nat}
    (inside : 4 * (position + 2) ≤ offsets.length)
    (covers : edgeAt offsets (position + 1) ≤ data.length) :
    Decides (valueText offsets data position) ((textAt offsets data position).isSome = true) fun text =>
      textAt offsets data position = some text := by
  have order : (textAt offsets data position).isSome = true →
      0 ≤ edgeAt offsets position ∧ edgeAt offsets position ≤ edgeAt offsets (position + 1) := by
    intro readable
    unfold textAt at readable
    split at readable
    · assumption
    · cases readable
  unfold valueText
  refine (readWord_decides (by omega)).bind (fun _ => trivial) fun start _ same => ?_
  refine (readWord_decides (by omega)).bind (fun _ => trivial) fun stop _ same' => ?_
  subst same same'
  refine (usize_decides _ _).bind (fun readable => (order readable).1) fun start positive same => ?_
  refine (usize_decides _ _).bind
    (fun readable => Int.le_trans (order readable).1 (order readable).2) fun stop positive' same' => ?_
  subst same same'
  refine (ensure_decides _).bind
    (fun readable => decide_eq_true (Int.toNat_le_toNat (order readable).2)) fun _ monotone _ => ?_
  have monotone := of_decide_eq_true monotone
  have ordered : 0 ≤ edgeAt offsets position ∧
      edgeAt offsets position ≤ edgeAt offsets (position + 1) := by
    unfold edgeAt
    omega
  have here : textAt offsets data position = fromUtf8
    ((data.drop (signed32 (wordAt offsets 4 position)).toNat).take
      ((signed32 (wordAt offsets 4 (position + 1))).toNat - (signed32
      (wordAt offsets 4 position)).toNat)) := if_pos ordered
  rw [check, decide_eq_true (by unfold edgeAt at covers; omega), here]
  cases read : fromUtf8 _ with
  | none => exact .refuse _ Bool.noConfusion
  | some text => exact .pure rfl rfl

/-- A known text keeps its code, and a new one gets the next. -/
theorem internChecked_decides {dictionary : Dictionary} {text : String}
    (size : dictionary.bytes.length + (utf8 text).length < 2 ^ 31) :
    Decides (constructed (dictionary.internChecked text)) True fun interned =>
      if text ∈ dictionary.values then interned.1 < dictionary.values.length
      else interned.1 = dictionary.values.length ∧ interned.2.values = dictionary.values ++ [text] := by
  have count := dictionary.count_le
  unfold Dictionary.internChecked
  by_cases seen : text ∈ dictionary.values
  · simp only [if_neg (not_not.mpr seen), if_pos seen]
    refine .pure trivial ?_
    rw [Dictionary.intern, dif_pos seen]
    exact List.idxOf_lt_length_iff.mpr seen
  · simp only [if_pos seen, if_neg seen]
    rw [check, decide_eq_true (by omega), check, decide_eq_true size]
    refine .pure trivial ?_
    rw [Dictionary.intern, dif_neg seen]
    exact ⟨rfl, rfl⟩

/-- What is left of a dictionary's values, each read and each new. -/
def Spelled (dictionary : Dictionary) (rest : List (Option String)) : Prop :=
  (∀ symbol ∈ rest, symbol.isSome = true) ∧ (dictionary.values.map some ++ rest).Nodup

theorem bytes_append {dictionary grown : Dictionary} {text : String}
    (values : grown.values = dictionary.values ++ [text]) :
    grown.bytes.length = dictionary.bytes.length + (utf8 text).length := by
  rw [Dictionary.bytes, values, List.flatMap_append, List.length_append]
  simp [Dictionary.bytes]

theorem textAt_size {offsets data : Bytes} {position : Nat} {text : String}
    (read : textAt offsets data position = some text) :
    0 ≤ edgeAt offsets position ∧ (edgeAt offsets position + (utf8 text).length : Int) ≤
      edgeAt offsets (position + 1) := by
  unfold textAt at read
  split at read
  · next ordered =>
    refine ⟨ordered.1, ?_⟩
    have length := congrArg List.length (utf8_of_fromUtf8 read)
    rw [List.length_take] at length
    omega
  · cases read

theorem spelled_cons {dictionary grown : Dictionary} {text : String} {rest : List (Option String)}
    (values : grown.values = dictionary.values ++ [text]) : Spelled dictionary (some text :: rest) ↔
    Spelled grown rest := by
  unfold Spelled
  rw [List.forall_mem_cons, values, List.map_append, List.append_assoc]
  simp

/-- The values are interned one after another. Their bytes end no later than the offset in front of
the next one. -/
theorem importValues_decides {offsets data : Bytes} {offset count i : Nat} {dictionary : Dictionary}
    (sized : dictionary.values.length = i)
    (small : dictionary.bytes.length = 0 ∨
      (dictionary.bytes.length : Int) ≤ edgeAt offsets (offset + i))
    (inside : 0 < count → 4 * (offset + i + count + 1) ≤ offsets.length)
    (covers : ∀ row, offset + i ≤ row → row < offset + i + count →
      edgeAt offsets (row + 1) ≤ data.length) :
    Decides (importValues offsets data offset count i dictionary)
      (Spelled dictionary ((List.range' i count).map fun k => textAt offsets data (offset + k)))
        fun final =>
        final.values.map some = dictionary.values.map some ++ (List.range' i count).map fun k =>
          textAt offsets data (offset + k) := by
  induction count generalizing i dictionary with
  | zero =>
    rw [List.range'_zero, List.map_nil, List.append_nil]
    refine .pure ⟨fun symbol member => absurd member List.not_mem_nil, ?_⟩ rfl
    rw [List.append_nil]
    exact dictionary.distinct.map (Option.some_injective _)
  | succ count ih =>
    rw [List.range'_succ, List.map_cons]
    have inside := inside (Nat.succ_pos _)
    unfold importValues
    refine (valueText_decides (by omega) (covers _ (by omega) (by omega))).bind
      (fun spelled => spelled.1 _ List.mem_cons_self) fun text _ read => ?_
    obtain ⟨positive, ends⟩ := textAt_size read
    have below := signed32_lt (wordAt offsets 4 (offset + i + 1))
    have size : dictionary.bytes.length + (utf8 text).length < 2 ^ 31 := by
      unfold edgeAt at *
      omega
    refine (internChecked_decides size).bind (fun _ => trivial) fun interned _ placed => ?_
    obtain ⟨code, grown⟩ := interned
    rw [read]
    by_cases seen : text ∈ dictionary.values
    · rw [if_pos seen] at placed
      have other : decide (code = i) = false := decide_eq_false (by omega)
      refine (ensure_decides _).bind (fun spelled => ?_) fun _ same _ =>
        absurd (other.symm.trans same) Bool.noConfusion
      exact absurd rfl ((List.nodup_append.mp spelled.2).2.2 (some text) (List.mem_map_of_mem seen)
        _ List.mem_cons_self)
    · rw [if_neg seen] at placed
      obtain ⟨code_eq, values⟩ := placed
      have size := bytes_append values
      refine (ensure_decides _).bind (fun _ => decide_eq_true (code_eq.trans sized)) fun _ _ _ => ?_
      refine (ih (i := i + 1) ?_ ?_ ?_ ?_).congr (spelled_cons values) fun final _ same => ?_
      · rw [values, List.length_append, sized, List.length_singleton]
      · rw [size, ← Nat.add_assoc]
        right
        omega
      · omega
      · exact fun row above below => covers row (by omega) (by omega)
      · rw [same, values]
        simp

/-- Whether a node can be a dictionary: its values are texts, and no two are the same. -/
structure ArrowArray.Spells (values : ArrowArray) : Prop where
  live : values.live = true
  length : 0 ≤ values.length
  offset : 0 ≤ values.offset
  nulls : values.nullCount ≤ 0
  counted : 2 < values.nBuffers
  readable : ∀ symbol ∈ values.symbols, symbol.isSome = true
  distinct : values.symbols.Nodup

theorem importBetween_decides {values : ArrowArray} (covered : values.CoveredText)
    (length : 0 ≤ values.length) (offset : 0 ≤ values.offset) :
    Decides (importBetween (values.buffer 1) (values.buffer 2) values.offset.toNat values.length.toNat)
      ((∀ symbol ∈ values.symbols, symbol.isSome = true) ∧ values.symbols.Nodup) fun dictionary =>
        dictionary.values.map some = values.symbols := by
  have physicalEnd : values.physicalEnd = values.offset.toNat + values.length.toNat := by
    unfold ArrowArray.physicalEnd
    omega
  have missing (absent : ∀ row, values.text row = none) :
      Decides (if 0 < values.length.toNat then refuse ⟨"null utf8 buffer"⟩ else .ok .empty :
        Result ImportError Dictionary)
        ((∀ symbol ∈ values.symbols, symbol.isSome = true) ∧ values.symbols.Nodup) fun dictionary =>
          dictionary.values.map some = values.symbols := by
    unfold ArrowArray.symbols
    simp only [absent]
    split
    · next some =>
      refine .refuse _ fun both => ?_
      have := both.1 none (List.mem_map.mpr ⟨0, List.mem_range.mpr some, rfl⟩)
      cases this
    · next empty =>
      rw [show values.length.toNat = 0 by omega]
      exact .pure ⟨by simp, by simp⟩ rfl
  cases held : values.buffer 1 with
  | none => exact missing fun row => by rw [ArrowArray.text, held]; rfl
  | some offsets =>
    cases held' : values.buffer 2 with
    | none => exact missing fun row => by rw [ArrowArray.text, held, held']; rfl
    | some data =>
      have symbols : values.symbols = (List.range' 0 values.length.toNat).map fun k =>
          textAt offsets data (values.offset.toNat + k) := by
        rw [ArrowArray.symbols, List.range_eq_range']
        refine List.map_congr_left fun i _ => ?_
        rw [ArrowArray.text, held, held']
        rfl
      have run := @importValues_decides offsets data values.offset.toNat values.length.toNat 0
        .empty rfl (.inl rfl)
        (fun some => by have := covered.offsets offsets held (by omega); omega)
        (fun row above below => covered.text offsets data held held' row above (by omega))
      rw [← symbols] at run
      exact run.congr (by simp [Spelled, Dictionary.empty]) fun dictionary _ same => same

theorem importDictionaryValues_decides {values : ArrowArray} (covered : values.CoveredText) :
    Decides (importDictionaryValues values) values.Spells fun dictionary =>
      dictionary.values.map some = values.symbols := by
  unfold importDictionaryValues
  refine (ensure_decides _).bind ArrowArray.Spells.live fun _ live _ => ?_
  refine (usize_decides _ _).bind ArrowArray.Spells.length fun count length same => ?_
  refine (usize_decides _ _).bind ArrowArray.Spells.offset fun offset positive same' => ?_
  subst same same'
  refine (ensure_decides _).bind (fun spells => decide_eq_true spells.nulls) fun _ nulls _ => ?_
  refine (bufferAt_decides 1 _ covered.table).bind (fun spells => by have := spells.counted; omega)
    fun offsets _ same => ?_
  refine (bufferAt_decides 2 _ covered.table).bind ArrowArray.Spells.counted
    fun data counted same' => ?_
  subst same same'
  refine (importBetween_decides covered length positive).congr
    ⟨fun spells => ⟨spells.readable, spells.distinct⟩, fun both => ?_⟩
    fun _ _ same => same
  exact ⟨live, length, positive, of_decide_eq_true nulls, counted, both.1, both.2⟩

/-! ### Key columns -/

/-- A code as it is imported: what is under a null is kept while it is in range. -/
def sanitized (size : Nat) (valid : Bool) (code : Nat) : Nat :=
  if valid = false ∧ size ≤ code then 0 else code

/-- What the dictionary must have for a row: the symbol of a valid one, anything for a null. -/
def InRange (size : Nat) (valid : Bool) (code : Nat) : Prop := 0 < size ∧ (valid = true → code < size)

theorem sanitizeCode_decides (name : String) (dictionary : Dictionary) (valid : Bool) (code : Nat) :
    Decides (sanitizeCode name dictionary valid code) (InRange dictionary.values.length valid code)
      (· = sanitized dictionary.values.length valid code) := by
  unfold sanitizeCode sanitized InRange
  cases valid with
  | true =>
    simp only [if_true, Bool.true_eq_false, false_and, if_false]
    split
    · exact .refuse _ (by simp; omega)
    · exact .pure (by simp; omega) rfl
  | false =>
    simp only [Bool.false_eq_true, if_false, true_and, false_imp_iff, and_true]
    split
    · next beyond =>
      split
      · next empty =>
        refine .refuse _ ?_
        simp [List.isEmpty_iff.mp empty]
      · next some =>
        exact .pure (List.length_pos_iff.mpr fun empty => some (List.isEmpty_iff.mpr empty)) rfl
    · next inside => exact .pure (by omega) rfl

theorem sanitized_lt {size code : Nat} {valid : Bool} (inRange : InRange size valid code)
    (word : code < 2 ^ 32) :
    sanitized size valid code < size ∧ sanitized size valid code < 2 ^ 32 := by
  obtain ⟨some, assigned⟩ := inRange
  unfold sanitized
  split
  · exact ⟨some, Nat.two_pow_pos 32⟩
  · next kept =>
    cases valid with
    | true => exact ⟨assigned rfl, word⟩
    | false => exact ⟨by simpa using kept, word⟩

theorem word_lt (child : ArrowArray) (row : Nat) : child.word 4 row < 2 ^ 32 := by
  unfold ArrowArray.word
  cases child.buffer 1 with
  | none => exact Nat.two_pow_pos 32
  | some data =>
    refine Nat.lt_of_lt_of_le (ofLe_lt _) ?_
    rw [show (2 : Nat) ^ 32 = 256 ^ 4 from rfl]
    exact Nat.pow_le_pow_right (by decide) (by rw [List.length_take]; omega)

theorem window_validAt {child : ArrowArray} {start rows i : Nat} (below : i < rows) :
    Bitmap.validAt (child.window start rows) i = child.validBit (start + i) := by
  unfold ArrowArray.window
  split
  · next full => exact (full i below).symm
  · simp [Bitmap.validAt, Bitmap.get, below]

theorem window_length {child : ArrowArray} {start rows : Nat} : ∀ bits,
    child.window start rows = some bits → bits.length = rows := by
  intro bits held
  unfold ArrowArray.window at held
  split at held
  · cases held
  · cases held
    simp

variable {F : Type}

theorem newKeyColumn_ok {codes : List Nat} {validity : Option Bitmap} {dictionary : Dictionary}
    (lengths : ∀ bits, validity = some bits → bits.length = codes.length)
    (assigned : ∀ code ∈ codes, code < dictionary.values.length ∧ code < 2 ^ 32) :
    (newKeyColumn (codes.map UInt32.ofNat) validity dictionary : Result FormatError (Column F)) =
      .ok (.key codes validity dictionary) := by
  have word (code : Nat) (member : code ∈ codes) : (UInt32.ofNat code).toNat = code := by
    rw [UInt32.toNat_ofNat']
    exact Nat.mod_eq_of_lt (assigned code member).2
  have same : (codes.map UInt32.ofNat).map UInt32.toNat = codes := by
    rw [List.map_map]
    exact (List.map_congr_left word).trans (List.map_id _)
  have all : ((codes.map UInt32.ofNat).all fun code =>
      decide (code.toNat < dictionary.values.length)) = true := by
    rw [List.all_map]
    refine List.all_eq_true.mpr fun code member => decide_eq_true ?_
    rw [word code member]
    exact (assigned code member).1
  have lengths := @validity_length codes.length validity lengths
  rw [newKeyColumn, check, check, all, List.length_map]
  simp only [lengths, if_true, same]
  rfl

def ArrowArray.Coded (start rows : Nat) (child : ArrowArray) : Prop :=
  ∃ values, child.dictionary = some values ∧ values.Spells ∧
    ∀ i < rows, InRange values.length.toNat (child.validBit (start + i)) (child.word 4 (start + i))

/-- Whether the importer can make a column of a node. -/
structure ArrowArray.FitsField (rootOffset rows : Nat) (field : Field) (child : ArrowArray) : Prop where
  fits : child.Fits rootOffset rows field
  holds : child.Holds rows
  coded : field.columnType = .key → child.Coded (child.offset.toNat + rootOffset) rows

def ArrowArray.KeyRows (start rows : Nat) (child : ArrowArray) (column : Column F) : Prop :=
  ∃ values dictionary, child.dictionary = some values ∧ dictionary.values.map some = values.symbols ∧
    column = .key ((List.range rows).map fun i =>
      sanitized dictionary.values.length (child.validBit (start + i)) (child.word 4 (start + i)))
      (child.window start rows) dictionary

theorem symbols_length {values : ArrowArray} {dictionary : Dictionary}
    (same : dictionary.values.map some = values.symbols) :
    dictionary.values.length = values.length.toNat := by
  have length := congrArg List.length same
  rw [List.length_map, ArrowArray.symbols, List.length_map, List.length_range] at length
  exact length

theorem zipIdx_range_map {α : Type} (g : Nat → α)
    (n : Nat) : ((List.range n).map g).zipIdx = (List.range n).map fun i => (g i, i) := by
  refine List.ext_getElem (by simp) fun i _ _ => ?_
  simp

/-- The codes of a node's rows, each made fit for the dictionary. -/
theorem sanitizeCodes_decides (name : String) (dictionary : Dictionary) {child : ArrowArray}
    {start rows : Nat} :
    Decides (((List.range rows).map fun i => child.word 4 (start + i)).zipIdx.mapM fun place =>
        sanitizeCode name dictionary (Bitmap.validAt (child.window start rows) place.2) place.1)
      (∀ i < rows, InRange dictionary.values.length (child.validBit (start + i))
        (child.word 4 (start + i)))
      (· = (List.range rows).map fun i =>
        sanitized dictionary.values.length (child.validBit (start + i))
        (child.word 4 (start + i))) := by
  rw [zipIdx_range_map, List.mapM_map]
  refine rows_decide fun i below => ?_
  rw [Function.comp_apply, window_validAt below]
  exact sanitizeCode_decides _ _ _ _

theorem importKeyColumn_decides {field : Field} {child : ArrowArray} {rootOffset rows : Nat}
    (key : field.columnType = .key)
    (covered : child.Covered 4)
    (coveredText : ∀ values, child.dictionary = some values → values.CoveredText) :
    Decides (importKeyColumn field child rootOffset rows : Result ImportError (Column F))
      (child.FitsField rootOffset rows field)
      (child.KeyRows (child.offset.toNat + rootOffset) rows) := by
  unfold importKeyColumn
  refine (bufferAt_decides 0 _ covered.table).bind (fun column => by
      have := column.holds.counted
      omega) fun validity _ same => ?_
  subst same
  refine (childGeometry_decides covered).bind ArrowArray.FitsField.fits fun geo fits same => ?_
  subst same
  refine (copyValues_decides covered fits.inside).bind ArrowArray.FitsField.holds
    fun codes holds same => ?_
  subst same
  unfold childDictionary
  cases held : child.dictionary with
  | none =>
    refine .refuse _ fun column => ?_
    obtain ⟨values, present, -⟩ := column.coded key
    rw [held] at present
    cases present
  | some values =>
    have coded (column : child.FitsField rootOffset rows field) : values.Spells ∧ ∀ i < rows,
      InRange values.length.toNat
        (child.validBit (child.offset.toNat + rootOffset + i))
          (child.word 4 (child.offset.toNat + rootOffset + i)) := by
      obtain ⟨values', present, both⟩ := column.coded key
      rw [held] at present
      cases present
      exact both
    refine (importDictionaryValues_decides (coveredText values held)).bind
      (fun column => (coded column).1) fun dictionary spells same => ?_
    have size := symbols_length same
    rw [← size] at coded
    refine (sanitizeCodes_decides field.name dictionary).bind (fun column => (coded column).2)
      fun codes inRange same' => ?_
    subst same'
    rw [newKeyColumn_ok]
    · exact .pure ⟨fits, holds, fun _ => ⟨values, held, spells, size ▸ inRange⟩⟩
        ⟨values, dictionary, held, same, rfl⟩
    · intro bits windowed
      rw [List.length_map, List.length_range]
      exact window_length bits windowed
    · intro code member
      obtain ⟨i, below, rfl⟩ := List.mem_map.mp member
      exact sanitized_lt (inRange i (List.mem_range.mp below)) (word_lt child _)

/-! ### Columns and batches -/

variable [F64 F]

def ArrowArray.Rows (start rows : Nat) (child : ArrowArray) (columnType : ColumnType)
    (column : Column F) : Prop :=
  match columnType with
  | .f64 =>
      column = .f64 ((List.range rows).map fun i =>
        F64.ofBits (UInt64.ofNat (child.word 8 (start + i)))) (child.window start rows)
  | .i64 =>
      column = .i64 ((List.range rows).map fun i =>
        (UInt64.ofNat (child.word 8 (start + i))).toInt64) (child.window start rows)
  | .key => child.KeyRows start rows column

def ColumnType.wordBytes : ColumnType → Nat
  | f64 => 8
  | i64 => 8
  | key => 4

/-- The node's buffers cover what it declares, its dictionary's too. -/
structure ArrowArray.CoversField (field : Field) (child : ArrowArray) : Prop where
  covered : child.Covered field.columnType.wordBytes
  text : field.columnType = .key → ∀ values, child.dictionary = some values → values.CoveredText

omit [F64 F] in
theorem importNumeric_decides {field : Field} {child : ArrowArray} {rootOffset rows : Nat}
    (numeric : field.columnType ≠ .key)
    {make : List Nat → Option Bitmap → Result FormatError (Column F)}
    {g : List Nat → Option Bitmap → Column F}
    (makes : ∀ values validity, (∀ bits, validity = some bits → bits.length = values.length) →
      make values validity = .ok (g values validity))
    (covered : child.Covered 8) :
    Decides (importNumeric field child rootOffset rows (child.buffer 0) make)
      (child.FitsField rootOffset rows field)
      (· = g ((List.range rows).map fun i => child.word 8 (child.offset.toNat + rootOffset + i))
        (child.window (child.offset.toNat + rootOffset) rows)) := by
  unfold importNumeric
  refine (childGeometry_decides covered).bind ArrowArray.FitsField.fits fun geo fits same => ?_
  subst same
  refine (copyValues_decides covered fits.inside).bind ArrowArray.FitsField.holds
    fun values holds same => ?_
  subst same
  rw [makes]
  · exact .pure ⟨fits, holds, fun key => absurd key numeric⟩ rfl
  · intro bits windowed
    rw [List.length_map, List.length_range]
    exact window_length bits windowed

theorem importColumn_decides {field : Field} {child : ArrowArray} {rootOffset rows : Nat}
    (covers : child.CoversField field) :
    Decides (importColumn field child rootOffset rows : Result ImportError (Column F))
      (child.FitsField rootOffset rows field)
      (child.Rows (child.offset.toNat + rootOffset) rows field.columnType) := by
  obtain ⟨covered, text⟩ := covers
  unfold importColumn
  refine (bufferAt_decides 0 _ covered.table).bind (fun column => by
      have := column.holds.counted
      omega) fun validity _ same => ?_
  subst same
  cases typed : field.columnType with
  | f64 =>
    rw [typed] at covered
    refine (importNumeric_decides (g := fun values validity =>
      .f64 (values.map fun bits => F64.ofBits (UInt64.ofNat bits)) validity)
      (by simp [typed]) (fun values validity lengths => ?_) covered).congr Iff.rfl
      fun column _ same => ?_
    · rw [newF64Column, List.length_map, validity_length lengths]
      rfl
    · rw [List.map_map] at same
      exact same
  | i64 =>
    rw [typed] at covered
    refine (importNumeric_decides (g := fun values validity =>
      .i64 (values.map fun bits => (UInt64.ofNat bits).toInt64) validity)
      (by simp [typed]) (fun values validity lengths => ?_) covered).congr Iff.rfl
      fun column _ same => ?_
    · rw [newI64Column, List.length_map, validity_length lengths]
      rfl
    · rw [List.map_map] at same
      exact same
  | key =>
    rw [typed] at covered
    exact importKeyColumn_decides typed covered (text typed)

theorem ArrowArray.Rows.binds {field : Field} {child : ArrowArray} {rootOffset rows : Nat}
    {column : Column F}
    (fits : child.FitsField rootOffset rows field)
    (holds : child.Rows (child.offset.toNat + rootOffset) rows field.columnType column) :
    column.Binds rows field := by
  have nullable (bits : Bitmap)
    (windowed : child.window (child.offset.toNat + rootOffset) rows = some bits) :
      bits.length = rows ∧ field.nullable = true := by
    refine ⟨window_length bits windowed, fits.fits.nulls.resolve_right fun full => ?_⟩
    rw [← ArrowArray.window_isNone, windowed] at full
    cases full
  unfold ArrowArray.Rows at holds
  split at holds
  · next typed =>
    subst holds
    exact ⟨typed.symm, by simp [Column.length], nullable, fun _ _ _ same => by cases same⟩
  · next typed =>
    subst holds
    exact ⟨typed.symm, by simp [Column.length], nullable, fun _ _ _ same => by cases same⟩
  · next typed =>
    obtain ⟨values, dictionary, held, same, rfl⟩ := holds
    refine ⟨typed.symm, by simp [Column.length], nullable, fun codes _ _ same' code member => ?_⟩
    cases same'
    obtain ⟨values', held', -, inRange⟩ := fits.coded typed
    rw [held] at held'
    cases held'
    obtain ⟨i, below, rfl⟩ := List.mem_map.mp member
    rw [← symbols_length same] at inRange
    exact (sanitized_lt (inRange i (List.mem_range.mp below)) (word_lt child _)).1

/-- Whether the importer can make a batch of a node. -/
structure ArrowArray.FitsBatch (schema : Schema) (array : ArrowArray) : Prop where
  live : array.live = true
  count : array.nChildren = schema.fields.length
  length : 0 ≤ array.length
  offset : 0 ≤ array.offset
  nulls : array.nullCount ≤ 0
  columns : ∀ place ∈ schema.fields.zipIdx, ∃ child, array.children[place.2]? = some child ∧
    child.FitsField array.offset.toNat array.length.toNat place.1

/-- The tables and buffers of a struct node and of its children cover what they declare. -/
structure ArrowArray.CoversBatch (schema : Schema) (array : ArrowArray) : Prop where
  table : array.nChildren.toNat ≤ array.children.length
  children : ∀ place ∈ schema.fields.zipIdx, ∀ child, array.children[place.2]? = some child →
    child.CoversField place.1

/-- Each column has its child's rows, from both offsets on. -/
def ArrowArray.BatchRows (schema : Schema) (array : ArrowArray) (batch : RecordBatch F) : Prop :=
  batch.schema = schema ∧
    List.Forall₂ (fun place column => ∃ child, array.children[place.2]? = some child ∧
    child.Rows (child.offset.toNat + array.offset.toNat) array.length.toNat place.1.columnType
    column) schema.fields.zipIdx batch.columns

omit [F64 F] in
theorem bound_numRows {schema : Schema} {columns : List (Column F)} {rows : Nat}
    (bound : List.Forall₂ (Column.Binds rows) schema.fields columns) :
    List.Forall₂ (Column.Binds (RecordBatch.numRows ⟨schema, columns⟩)) schema.fields columns := by
  cases columns with
  | nil =>
    obtain empty : schema.fields = [] := List.forall₂_nil_right_iff.mp bound
    rw [empty]
    exact .nil
  | cons column columns =>
    have first : column.length = rows := (Column.Binds.all bound).1 column List.mem_cons_self
    show List.Forall₂ (Column.Binds column.length) _ _
    rw [first]
    exact bound

theorem importArray_decides {schema : Schema} {array : ArrowArray} (covers : array.CoversBatch schema) :
    Decides (importArray schema array : Result ImportError (RecordBatch F)) (array.FitsBatch schema)
      (array.BatchRows schema) := by
  unfold importArray
  refine (ensure_decides _).bind ArrowArray.FitsBatch.live fun _ live _ => ?_
  refine (usize_decides _ _).bind (fun fits => by have := fits.count; omega) fun n positive same => ?_
  refine (ensure_decides _).bind (fun fits => decide_eq_true (by have := fits.count; omega))
    fun _ count _ => ?_
  have count : n = schema.fields.length := of_decide_eq_true count
  refine (usize_decides _ _).bind ArrowArray.FitsBatch.length fun rows length same' => ?_
  refine (usize_decides _ _).bind ArrowArray.FitsBatch.offset fun offset positive' same'' => ?_
  subst same' same''
  refine (ensure_decides _).bind (fun fits => decide_eq_true fits.nulls) fun _ nulls _ => ?_
  have child (place : Field × Nat) (member : place ∈ schema.fields.zipIdx) :
      Decides (index array.children place.2 >>= fun child =>
          (importColumn place.1 child array.offset.toNat array.length.toNat :
          Result ImportError (Column F)))
        (∃ child, array.children[place.2]? = some child ∧
            child.FitsField array.offset.toNat array.length.toNat place.1) fun column =>
          ∃ child, array.children[place.2]? = some child ∧
            child.FitsField array.offset.toNat array.length.toNat place.1 ∧
            child.Rows (child.offset.toNat + array.offset.toNat) array.length.toNat
              place.1.columnType column := by
    have inside : place.2 < array.children.length := by
      have := List.snd_lt_of_mem_zipIdx member
      have := covers.table
      omega
    have here := List.getElem?_eq_getElem inside
    rw [index, here]
    refine (importColumn_decides (covers.children place member _ here)).congr ?_
      fun column fits rows => ⟨_, rfl, fits, rows⟩
    simp
  refine (Decides.mapM child).bind ArrowArray.FitsBatch.columns fun columns fits related => ?_
  have bound : List.Forall₂ (Column.Binds array.length.toNat) schema.fields columns := by
    have binds := related.imp fun place column held => (show column.Binds array.length.toNat place.1 by
      obtain ⟨child, -, fits, rows⟩ := held
      exact rows.binds fits)
    rw [← List.forall₂_map_left_iff (f := Prod.fst), List.zipIdx_map_fst] at binds
    exact binds
  rw [recordBatch_new (bound_numRows bound)]
  refine .pure ⟨live, by omega, length, positive', of_decide_eq_true nulls, fits⟩
    ⟨rfl, related.imp fun place column held => ?_⟩
  obtain ⟨child, here, -, rows⟩ := held
  exact ⟨child, here, rows⟩

/-! ### Schemas -/

theorem cstr_not_panicked (text : Option Bytes) : ¬ Panicked (cstr text) := by
  unfold cstr
  split
  · exact not_panicked_refuse _
  · split
    · exact not_panicked_refuse _
    · exact not_panicked_ok _

theorem parseDecimal_not_panicked (format : String) : ¬ Panicked (parseDecimal format) := by
  unfold parseDecimal
  split
  · split
    · exact not_panicked_refuse _
    · split
      · exact not_panicked_refuse _
      · split
        · exact not_panicked_refuse _
        · exact not_panicked_ok _
  · exact not_panicked_refuse _

theorem parseType_safe (name format : String) (dictionary : Option ArrowSchema) : ¬ Panicked
      (parseType name format dictionary) ∧
    ∀ columnType logical, parseType name format dictionary = .ok (columnType, some logical) →
    columnType = .i64 := by
  cases dictionary with
  | none =>
    unfold parseType
    simp only
    split
    · exact ⟨not_panicked_ok _, fun _ _ same => by cases same⟩
    · split
      · exact ⟨not_panicked_ok _, fun _ _ same => by cases same⟩
      · split
        · exact ⟨not_panicked_ok _, fun _ _ same => by cases same; rfl⟩
        · split
          · refine ⟨panicked_map.not.mpr (parseDecimal_not_panicked format),
              fun columnType logical same => ?_⟩
            cases parsed : parseDecimal format with
            | error fault => rw [parsed] at same; cases same
            | ok decimal => rw [parsed] at same; cases same; rfl
          · exact ⟨not_panicked_refuse _, fun _ _ same => by cases same⟩
  | some dictionary =>
    unfold parseType
    simp only
    constructor
    · refine not_panicked_bind (ensure_decides _).not_panicked fun _ _ =>
        not_panicked_bind (cstr_not_panicked _) fun values _ => ?_
      exact not_panicked_bind (ensure_decides _).not_panicked fun _ _ => not_panicked_ok _
    · intro columnType logical same
      obtain ⟨_, -, same⟩ := except_bind_ok same
      obtain ⟨_, -, same⟩ := except_bind_ok same
      obtain ⟨_, -, same⟩ := except_bind_ok same
      cases same

theorem parseField_not_panicked (child : ArrowSchema) : ¬ Panicked (parseField child) := by
  unfold parseField
  refine not_panicked_bind ?_ fun name _ => not_panicked_bind (cstr_not_panicked _) fun format _ => ?_
  · unfold parseName
    split
    · exact not_panicked_ok _
    · exact cstr_not_panicked _
  · obtain ⟨safe, annotates⟩ := parseType_safe name format child.dictionary
    refine not_panicked_bind safe fun kind parsed => ?_
    obtain ⟨columnType, logical⟩ := kind
    cases logical with
    | none => exact not_panicked_ok _
    | some logical =>
      obtain rfl := annotates _ _ parsed
      exact not_panicked_ok _

theorem parseSchema_not_panicked {schema : ArrowSchema}
    (table : schema.nChildren.toNat ≤ schema.children.length) :
    ¬ Panicked (parseSchema schema) := by
  unfold parseSchema
  refine not_panicked_bind (ensure_decides _).not_panicked fun _ _ =>
    not_panicked_bind (cstr_not_panicked _) fun format _ => ?_
  refine not_panicked_bind (ensure_decides _).not_panicked fun _ _ =>
    not_panicked_bind (usize_decides _ _).not_panicked fun n counted => ?_
  have count := ((usize_decides _ _).of_ok counted).2
  subst count
  refine not_panicked_bind (not_panicked_mapM fun i member => ?_) fun fields _ => not_panicked_ok _
  have inside := Nat.lt_of_lt_of_le (List.mem_range.mp member) table
  rw [index, List.getElem?_eq_getElem inside]
  exact parseField_not_panicked _

end TallyDB
