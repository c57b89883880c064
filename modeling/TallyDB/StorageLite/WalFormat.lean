import TallyDB.StorageLite.Decoded
import TallyDB.StorageLite.Format
import TallyDB.Wire.Log

/-!
# Write-ahead log files

The bytes of a log and their decoder. Each record carries its length and its checksum, so
a torn log gives exactly the records that are wholly there, as long as the length field
holds each payload's length.
-/

namespace TallyDB

open Wire Reader

variable {F : Type} [F64 F]

def walMagic : Bytes := utf8 "TALLYWAL"

/-- One record of a log: an entry with the numbers as the file holds them. -/
inductive WalRecord (F : Type) where
  | row (cells : Row F)
  | supersession (sequence replacements : UInt64)
  deriving DecidableEq

structure WalContents (F : Type) where
  generation : UInt64
  baseRowId : UInt64
  entries : List (WalRecord F)
  deriving DecidableEq

/-! ### Encoding -/

def walHeaderFront (generation baseRowId : UInt64) : Bytes :=
  walMagic ++ (toLe 2 2 ++ (toLe 8 generation.toNat ++ toLe 8 baseRowId.toNat))

def encodeWalHeader (generation baseRowId : UInt64) : Bytes :=
  walHeaderFront generation baseRowId ++ toLe 4 (crc32c (walHeaderFront generation baseRowId)).toNat

/-- One cell under its presence tag. A text's length is cast to 32 bits. -/
def encodeWalCell : RowValue F → Bytes
  | .null => [0]
  | .i64 value => 1 :: toLe 8 value.toUInt64.toNat
  | .f64 value => 2 :: toLe 8 (F64.toBits value).toNat
  | .key value => 3 :: (toLe 4 (utf8 value).length ++ utf8 value)

def WalRecord.payload : WalRecord F → Bytes
  | row cells => cells.flatMap encodeWalCell
  | supersession sequence replacements =>
      0xff :: 1 :: (toLe 8 sequence.toNat ++ toLe 8 replacements.toNat)

/-- The payload between its length, which is cast to 32 bits, and its checksum. -/
def encodeWalRecord (record : WalRecord F) : Bytes :=
  toLe 4 record.payload.length ++ (record.payload ++ toLe 4 (crc32c record.payload).toNat)

/-- A log as the store writes it: the header, then each record as it comes. -/
def encodeWal (generation baseRowId : UInt64) (records : List (WalRecord F)) : Bytes :=
  encodeWalHeader generation baseRowId ++ records.flatMap encodeWalRecord

/-! ### Decoding -/

/-- Reads the header of a file whose bytes before the header's checksum are `covered`. -/
def readWalHeader (covered : Bytes) : Reader FormatError (UInt64 × UInt64) := do
  let magic ← take endOfFile 8
  let _ ← lift (require (magic = walMagic) (.corrupt "not a WAL file"))
  let version ← word endOfFile 2
  let _ ← lift (require (version = 1 ∨ version = 2)
    (.corrupt s!"WAL version {version} is not readable (this build reads 1 and 2)"))
  let generation ← word endOfFile 8
  let baseRowId ← word endOfFile 8
  let stored ← word endOfFile 4
  let _ ← lift (require ((crc32c covered).toNat = stored) (.corrupt "WAL header checksum mismatch"))
  return (.ofNat generation, .ofNat baseRowId)

/-- Reads one cell. Whatever fails here ends the log, so that its reason is not kept. -/
def readWalCell : Reader Unit (RowValue F) := do
  let tag ← byte ()
  if tag = 0 then return .null
  else if tag = 1 then (fun bits => .i64 (UInt64.ofNat bits).toInt64) <$> word () 8
  else if tag = 2 then (fun bits => .f64 (F64.ofBits (UInt64.ofNat bits))) <$> word () 8
  else if tag = 3 then
    let length ← word () 4
    let bytes ← take () length
    match fromUtf8 bytes with
    | some text => return .key text
    | none => lift (refuse ())
  else lift (refuse ())

/-- A payload whose first byte is `0xff`, which no cell's tag is, is a control record. Bytes
after a row's cells are not looked at. -/
def decodeWalPayload (columns : Nat) (payload : Bytes) : Result Unit (WalRecord F) :=
  if payload.head? = some 0xff then
    if payload.length ≠ 18 ∨ payload[1]? ≠ some 1 then refuse ()
    else .ok (.supersession (.ofNat (ofLe ((payload.drop 2).take 8)))
      (.ofNat (ofLe ((payload.drop 10).take 8))))
  else (times readWalCell columns payload).map fun taken => .row taken.1

def readWalRecord (columns : Nat) : Reader Unit (WalRecord F) := do
  let length ← word () 4
  let payload ← take () length
  let stored ← word () 4
  lift (if (crc32c payload).toNat ≠ stored then refuse () else decodeWalPayload columns payload)

/-- Decodes a log file: a bad header is refused, and a record that cannot be read ends the log. -/
def decodeWal (columns : Nat) (bytes : Bytes) : Result FormatError (WalContents F) := do
  let ((generation, baseRowId), rest) ← readWalHeader (bytes.take 26) bytes
  .ok { generation, baseRowId, entries := readAll (readWalRecord columns) rest }

/-! ### What was encoded -/

theorem walHeaderFront_length (generation baseRowId : UInt64) :
    (walHeaderFront generation baseRowId).length = 26 := by
  simp only [walHeaderFront, List.length_append, toLe_length]
  decide

theorem encodeWalHeader_length (generation baseRowId : UInt64) :
    (encodeWalHeader generation baseRowId).length = 30 := by
  rw [encodeWalHeader, List.length_append, walHeaderFront_length, toLe_length]

theorem readWalHeader_reads (generation baseRowId : UInt64) :
    Reads (readWalHeader (walHeaderFront generation baseRowId))
      (encodeWalHeader generation baseRowId) (generation, baseRowId) := by
  have magic : walMagic.length = 8 := by decide
  simp only [encodeWalHeader, walHeaderFront, List.append_assoc]
  refine (magic ▸ Reads.take _ walMagic).bind ?_
  refine (Reads.lift (show _ = Except.ok () from if_pos (by simp))).bind
    ((Reads.word _ (show 2 < 256 ^ 2 by decide)).bind ?_)
  refine (Reads.lift (show _ = Except.ok () from if_pos (by simp))).bind ?_
  refine (Reads.word _ generation.toNat_lt).bind ((Reads.word _ baseRowId.toNat_lt).bind ?_)
  refine .congr ((Reads.word _ (UInt32.toNat_lt _)).bind ?_) (List.append_nil _) rfl
  refine .congr ((Reads.lift (show _ = Except.ok () from if_pos (by simp))).finish _) rfl ?_
  rw [UInt64.ofNat_toNat, UInt64.ofNat_toNat]

theorem readWalCell_reads [LawfulBits F] {cell : RowValue F}
    (fits : (encodeWalCell cell).length < 2 ^ 32) :
    Reads readWalCell (encodeWalCell cell) cell := by
  cases cell with
  | null =>
    refine .bind (.byte () 0) ?_
    rw [if_pos rfl]
    exact .pure _
  | i64 value =>
    refine .bind (.byte () 1) ?_
    rw [if_neg (by decide), if_pos rfl]
    refine .congr ((Reads.word () value.toUInt64.toNat_lt).map _) rfl ?_
    rw [UInt64.ofNat_toNat, Int64.toInt64_toUInt64]
  | f64 value =>
    refine .bind (.byte () 2) ?_
    rw [if_neg (by decide), if_neg (by decide), if_pos rfl]
    refine .congr ((Reads.word () (F64.toBits value).toNat_lt).map _) rfl ?_
    rw [UInt64.ofNat_toNat, LawfulBits.ofBits_toBits]
  | key value =>
    have short : (utf8 value).length < 256 ^ 4 := by
      simp only [encodeWalCell, List.length_cons, List.length_append] at fits
      omega
    refine .bind (.byte () 3) ?_
    rw [if_neg (by decide), if_neg (by decide), if_neg (by decide), if_pos rfl]
    refine .bind (.word () short) (.congr ((Reads.take () _).bind ?_) (List.append_nil _) rfl)
    rw [fromUtf8_utf8]
    exact .pure _

theorem readWalCell_sound : Sound (readWalCell : Reader Unit (RowValue F)) fun cell used =>
      used.length = (encodeWalCell cell).length := by
  refine (Sound.byte ()).bind ?_
  rintro tag _ rfl
  split
  · exact .pure rfl
  · split
    · refine .map ((Sound.word () 8).mono ?_)
      rintro bits _ ⟨-, rfl⟩
      simp [encodeWalCell]
    · split
      · refine .map ((Sound.word () 8).mono ?_)
        rintro bits _ ⟨-, rfl⟩
        simp [encodeWalCell]
      · split
        · refine (Sound.word () 4).bind ?_
          rintro length _ ⟨-, rfl⟩
          refine (Sound.take () length).bind ?_
          rintro bytes _ ⟨rfl, rfl⟩
          split
          · next text decoded =>
            refine .pure ?_
            simp [encodeWalCell, utf8_of_fromUtf8 decoded]
          · exact .refuse ()
        · exact .refuse ()

def WalRecord.HasWidth (columns : Nat) : WalRecord F → Prop
  | row cells => cells.length = columns
  | supersession _ _ => True

instance (columns : Nat) : DecidablePred (@WalRecord.HasWidth F columns) := fun record =>
  match record with
  | .row cells => inferInstanceAs (Decidable (cells.length = columns))
  | .supersession _ _ => inferInstanceAs (Decidable True)

theorem encodeWalCell_head (cell : RowValue F) : ∃ tag rest, encodeWalCell cell = tag :: rest ∧
    tag ≠ 0xff := by
  cases cell with
  | null => exact ⟨0, _, rfl, by decide⟩
  | i64 value => exact ⟨1, _, rfl, by decide⟩
  | f64 value => exact ⟨2, _, rfl, by decide⟩
  | key value => exact ⟨3, _, rfl, by decide⟩

theorem decodeWalPayload_ok [LawfulBits F] {columns : Nat} {record : WalRecord F}
    (some_ : 1 ≤ columns) (width : record.HasWidth columns)
    (fits : record.payload.length < 2 ^ 32) : decodeWalPayload columns record.payload = .ok record := by
  cases record with
  | supersession sequence replacements =>
    have after (first second : Bytes) : (0xff :: 1 :: (first ++ second)).drop 2 = first ++ second := rfl
    have first : ((WalRecord.supersession sequence replacements : WalRecord F).payload.drop 2).take
        8 = toLe 8 sequence.toNat := by
      rw [WalRecord.payload, after, List.take_left' (toLe_length 8 _)]
    have second : ((WalRecord.supersession sequence replacements : WalRecord F).payload.drop
        10).take 8 = toLe 8 replacements.toNat := by
      rw [WalRecord.payload, ← List.drop_drop (i := 8) (j := 2), after,
        List.drop_left' (toLe_length 8 _)]
      simp
    have control : (WalRecord.supersession sequence replacements : WalRecord F).payload.head? =
      some 0xff := rfl
    rw [decodeWalPayload, if_pos control, if_neg (by simp [WalRecord.payload]), first, second,
      ofLe_toLe_of_lt sequence.toNat_lt,
      ofLe_toLe_of_lt replacements.toNat_lt, UInt64.ofNat_toNat, UInt64.ofNat_toNat]
  | row cells =>
    have each : ∀ cell ∈ cells, Reads readWalCell (encodeWalCell cell) cell := by
      intro cell member
      obtain ⟨before, after, rfl⟩ := List.append_of_mem member
      simp only [WalRecord.payload, List.flatMap_append, List.flatMap_cons, List.length_append] at fits
      exact readWalCell_reads (by omega)
    have taken := (Reads.times each).takes []
    rw [List.append_nil, show cells.length = columns from width] at taken
    have row_ : (WalRecord.row cells).payload.head? ≠ some 0xff := by
      cases cells with
      | nil => exact absurd width (by simp only [WalRecord.HasWidth, List.length_nil]; omega)
      | cons cell cells =>
        obtain ⟨tag, rest, encoded, other⟩ := encodeWalCell_head cell
        simp [WalRecord.payload, encoded, other]
    rw [decodeWalPayload, if_neg row_]
    exact congrArg (Except.map fun taken => WalRecord.row taken.1) taken

theorem readWalRecord_reads [LawfulBits F] {columns : Nat} {record : WalRecord F}
    (some_ : 1 ≤ columns) (width : record.HasWidth columns)
    (fits : record.payload.length < 2 ^ 32) : Reads (readWalRecord columns)
      (encodeWalRecord record) record := by
  refine (Reads.word () (show _ < 256 ^ 4 from fits)).bind ((Reads.take () _).bind ?_)
  refine .congr ((Reads.word () (UInt32.toNat_lt _)).bind ?_) (List.append_nil _) rfl
  rw [if_neg (not_not.mpr rfl)]
  exact .lift (decodeWalPayload_ok some_ width fits)

/-- What is decoded fits in the payload that it was decoded from. -/
theorem decodeWalPayload_le {columns : Nat} {payload : Bytes} {record : WalRecord F}
    (decoded : decodeWalPayload columns payload = .ok record) :
    record.payload.length ≤ payload.length := by
  unfold decodeWalPayload at decoded
  split at decoded
  · split at decoded
    · cases decoded
    · next control =>
      obtain rfl := Except.ok.inj decoded
      simp only [not_or, not_not] at control
      simp [WalRecord.payload, control.1]
  · cases taken : times (readWalCell : Reader Unit (RowValue F)) columns payload with
    | error fault => simp [taken, Except.map] at decoded
    | ok pair =>
      obtain ⟨cells, rest⟩ := pair
      rw [taken] at decoded
      obtain rfl := Except.ok.inj decoded
      obtain ⟨used, rfl, length⟩ := (readWalCell_sound.times_size columns).ok taken
      rw [WalRecord.payload, List.length_flatMap, List.length_append, length]
      exact Nat.le_add_right _ _

theorem readWalRecord_sound (columns : Nat) :
    Sound (readWalRecord columns : Reader Unit (WalRecord F)) fun record used =>
      record.payload.length < 2 ^ 32 ∧ 0 < used.length := by
  refine (Sound.word () 4).bind ?_
  rintro length _ ⟨small, rfl⟩
  refine (Sound.take () length).bind ?_
  rintro payload _ ⟨rfl, rfl⟩
  refine (Sound.word () 4).bind ?_
  rintro stored _ -
  split
  · exact .refuse ()
  · refine .lift (fun message failed => ?_) fun record decoded =>
      ⟨Nat.lt_of_le_of_lt (decodeWalPayload_le decoded) small, by simp⟩
    unfold decodeWalPayload at failed
    split at failed
    · split at failed <;> cases failed
    · cases taken : times (readWalCell : Reader Unit (RowValue F)) columns payload with
      | ok pair => simp [taken, Except.map] at failed
      | error fault =>
        rw [taken] at failed
        obtain rfl := Except.error.inj failed
        exact (readWalCell_sound.times_size columns).not_panicked taken

theorem readWalRecord_consumes (columns : Nat) : Consumes
      (readWalRecord columns : Reader Unit (WalRecord F)) :=
  ((readWalRecord_sound columns).mono fun _ _ sound => sound.2).consumes

/-! ### Torn logs -/

theorem decodeWal_header (columns : Nat) (generation baseRowId : UInt64) (rest : Bytes) :
    decodeWal columns (encodeWalHeader generation baseRowId ++ rest) =
      .ok ({ generation, baseRowId, entries := readAll (readWalRecord columns) rest } :
        WalContents F) := by
  have covered : (encodeWalHeader generation baseRowId ++ rest).take 26 = walHeaderFront generation
      baseRowId := by
    rw [encodeWalHeader, List.append_assoc, List.take_left' (walHeaderFront_length _ _)]
  rw [decodeWal, covered, (readWalHeader_reads generation baseRowId).takes]
  rfl

theorem encodeWal_take (generation baseRowId : UInt64) (records : List (WalRecord F)) {cut : Nat}
    (after : 30 ≤ cut) :
    (encodeWal generation baseRowId records).take cut =
      encodeWalHeader generation baseRowId ++ (records.flatMap encodeWalRecord).take (cut - 30) := by
  rw [encodeWal, List.take_append, List.take_of_length_le (by
      rw [encodeWalHeader_length]
      exact after), encodeWalHeader_length]

/-- After the cut, the log decodes to the records that lie wholly before it. -/
def Survives (columns : Nat) (generation baseRowId : UInt64) (records : List (WalRecord F))
    (cut : Nat) : Prop :=
  decodeWal columns ((encodeWal generation baseRowId records).take cut) =
    .ok { generation, baseRowId, entries := recordsBefore encodeWalRecord cut 30 records }

theorem survives_of_fits [LawfulBits F] {columns : Nat} (some_ : 1 ≤ columns)
    (generation baseRowId : UInt64) {records : List (WalRecord F)}
    (width : ∀ record ∈ records, record.HasWidth columns)
    (fits : ∀ record ∈ records, record.payload.length < 2 ^ 32) {cut : Nat}
    (after : 30 ≤ cut) : Survives columns generation baseRowId records cut := by
  have reads : ∀ record ∈ records, Reads (readWalRecord columns) (encodeWalRecord record)
      (id record) := fun record member =>
    readWalRecord_reads some_ (width record member) (fits record member)
  have read := readAll_take (readWalRecord_consumes columns) reads 30 (cut - 30)
  rw [List.map_id, show 30 + (cut - 30) = cut by omega] at read
  rw [Survives, encodeWal_take generation baseRowId records after, decodeWal_header, read]

theorem Survives.whole {columns : Nat} {generation baseRowId : UInt64} {records : List (WalRecord F)}
    (survives : Survives columns generation baseRowId records
      (encodeWal generation baseRowId records).length) :
    decodeWal columns (encodeWal generation baseRowId records) = .ok
      { generation, baseRowId, entries := records } := by
  have length : (encodeWal generation baseRowId records).length = 30 +
      (records.flatMap encodeWalRecord).length := by
    rw [encodeWal, List.length_append, encodeWalHeader_length]
  rwa [Survives, List.take_length, recordsBefore_all (Nat.le_of_eq length.symm)] at survives

/-- No log gives back a record whose payload's length was cut off. -/
theorem decoded_fits {columns : Nat} {generation baseRowId : UInt64}
    {records entries : List (WalRecord F)}
    (decoded : decodeWal columns (encodeWal generation baseRowId records) =
      .ok { generation, baseRowId, entries }) :
    ∀ record ∈ entries, record.payload.length < 2 ^ 32 := by
  rw [encodeWal, decodeWal_header] at decoded
  have same : readAll (readWalRecord columns) (records.flatMap encodeWalRecord) = entries :=
    congrArg WalContents.entries (Except.ok.inj decoded)
  rw [← same]
  exact readAll_forall (readWalRecord_consumes columns)
    ((readWalRecord_sound columns).mono fun _ _ sound => sound.1).gives _

/-- A torn log gives exactly its whole records, whatever the cut, exactly where every payload's
length fits its field. -/
theorem decodeWal_survives_iff [LawfulBits F] {columns : Nat} (some_ : 1 ≤ columns)
    (generation baseRowId : UInt64)
    {records : List (WalRecord F)} (width : ∀ record ∈ records, record.HasWidth columns) :
    ((∀ cut, 30 ≤ cut → Survives columns generation baseRowId records cut) ∧
      decodeWal columns (encodeWal generation baseRowId records) =
      .ok { generation, baseRowId, entries := records }) ↔
    ∀ record ∈ records, record.payload.length < 2 ^ 32 := by
  constructor
  · exact fun survives => decoded_fits survives.2
  · intro fits
    have survives : ∀ cut, 30 ≤ cut → Survives columns generation baseRowId records cut :=
        fun cut after =>
      survives_of_fits some_ generation baseRowId width fits after
    refine ⟨survives, (survives _ ?_).whole⟩
    rw [encodeWal, List.length_append, encodeWalHeader_length]
    exact Nat.le_add_right 30 _

def mixedRecords : List (WalRecord UInt64) :=
  [.supersession 7 1, .row [.key "né", .f64 0x7ff8000000000001, .i64 (-1), .null], .supersession 8 0]

theorem mixedRecords_survive : (∀ record ∈ mixedRecords, record.HasWidth 4) ∧ 1 ≤ 4 ∧
    ((∀ cut, 30 ≤ cut → Survives 4 3 9 mixedRecords cut) ∧
      decodeWal 4 (encodeWal 3 9 mixedRecords) =
      .ok { generation := 3, baseRowId := 9, entries := mixedRecords }) :=
  ⟨by decide, by decide, (decodeWal_survives_iff (by decide) 3 9 (by decide)).mpr (by decide)⟩

def longRecord (count : Nat) : WalRecord UInt64 := .row [.key (.ofList (.replicate count 'a'))]

theorem longRecord_payload (count : Nat) : (longRecord count).payload.length = 5 + count := by
  simp only [longRecord, WalRecord.payload, encodeWalCell, List.flatMap_cons, List.flatMap_nil,
    List.append_nil, List.length_cons,
    List.length_append, toLe_length, utf8_replicate]
  omega

theorem longRecord_lost : (longRecord (2 ^ 32)).HasWidth 1 ∧
    ¬((∀ cut, 30 ≤ cut → Survives 1 0 0 [longRecord (2 ^ 32)] cut) ∧
      decodeWal 1 (encodeWal 0 0 [longRecord (2 ^ 32)]) =
      .ok { generation := 0, baseRowId := 0, entries := [longRecord (2 ^ 32)] }) := by
  have width (count : Nat) : (longRecord count).HasWidth 1 := rfl
  have fits (count : Nat) (whole : decodeWal 1 (encodeWal 0 0 [longRecord count]) =
      .ok { generation := 0, baseRowId := 0, entries := [longRecord count] }) : 5 + count < 2 ^ 32 := by
    rw [← longRecord_payload]
    exact decoded_fits whole _ List.mem_cons_self
  exact ⟨width _, fun survives => absurd (fits _ survives.2) (by decide)⟩

/-! ### The frames of a log -/

def WalRecord.entry : WalRecord F → WalEntry F
  | row cells => .row cells
  | supersession sequence replacements => .supersession sequence.toNat replacements.toNat

/-- The frames of a cut log whose records begin at `start`: the cut may leave a part of a record. -/
def framesBefore (cut : Nat) : Nat → List (WalRecord F) → List (Option (WalEntry F))
  | _, [] => []
  | start, record :: records =>
    let stop := start + (encodeWalRecord record).length
    if stop ≤ cut then some record.entry :: framesBefore cut stop records
    else if start < cut then [none] else []

theorem cleanPrefix_framesBefore (cut start : Nat) (records : List (WalRecord F)) :
    cleanPrefix (framesBefore cut start records) =
      (recordsBefore encodeWalRecord cut start records).map WalRecord.entry := by
  induction records generalizing start with
  | nil => rfl
  | cons record records ih =>
    rw [framesBefore, recordsBefore]
    by_cases whole : start + (encodeWalRecord record).length ≤ cut
    · rw [if_pos whole, if_pos whole, cleanPrefix, ih, List.map_cons]
    · rw [if_neg whole, if_neg whole, recordsBefore_past (by omega)]
      split <;> rfl

/-- What the store replays of a torn log is the clean prefix of its frames. -/
theorem decodeWal_frames [LawfulBits F] {columns : Nat} (some_ : 1 ≤ columns)
    (generation baseRowId : UInt64) {records : List (WalRecord F)}
    (width : ∀ record ∈ records, record.HasWidth columns)
    (fits : ∀ record ∈ records, record.payload.length < 2 ^ 32) {cut : Nat}
    (after : 30 ≤ cut) :
    ∃ contents, decodeWal columns ((encodeWal generation baseRowId records).take cut) = .ok contents ∧
      contents.generation = generation ∧ contents.baseRowId = baseRowId ∧
      contents.entries.map WalRecord.entry = cleanPrefix (framesBefore cut 30 records) :=
  ⟨_, survives_of_fits some_ generation baseRowId width fits after, rfl, rfl,
    (cleanPrefix_framesBefore cut 30 records).symm⟩

end TallyDB
