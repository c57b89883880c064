import TallyDB.StorageLite.Decoded
import TallyDB.Table.Mutate

/-!
# The record of a definition

A persistent view keeps its definition, its source and its stamp in one file beside its
table. The checksum stands at the end, and covers all that comes before it.
-/

namespace TallyDB

open Wire Reader

def definitionFile : String := "view.def"

def corruptDefinition (what : String) : EngineError :=
  .query (.unsupported s!"{definitionFile} is corrupt: {what}")

/-- What the record of a join view holds beside that of its source. -/
structure JoinState where
  dimension : String
  stamp : Nat
  ceiling : Int64
  deriving DecidableEq

structure DefinitionRecord where
  stamp : Nat
  width : Nat
  source : String
  sql : String
  join : Option JoinState
  deriving DecidableEq

/-! ### Encoding -/

def definitionMagic : Bytes := utf8 "TDBV"

def textField (text : String) : Bytes := toLe 4 (utf8 text).length ++ utf8 text

def JoinState.fields (join : JoinState) : Bytes :=
  toLe 8 join.stamp ++ (toLe 8 join.ceiling.toUInt64.toNat ++ textField join.dimension)

/-- The fields of a record under a version. The first version had no width. -/
def DefinitionRecord.fields (version : Nat) (record : DefinitionRecord) : Bytes :=
  toLe 8 record.stamp ++ ((if 2 ≤ version then toLe 8 record.width else []) ++
    (textField record.source ++ (textField record.sql ++ record.join.elim [] JoinState.fields)))

def checksummed (payload : Bytes) : Bytes := payload ++ toLe 4 (crc32c payload).toNat

/-- The version tells whether there is a second source. -/
def encodeDefinition (record : DefinitionRecord) : Bytes :=
  let version := if record.join.isSome then 3 else 2
  checksummed (definitionMagic ++ (toLe 2 version ++ record.fields version))

/-! ### Decoding -/

def readText (what : String) : Reader EngineError String := do
  let length ← word (corruptDefinition s!"truncated {what} length") 4
  let bytes ← take (corruptDefinition s!"truncated {what}") length
  lift (match fromUtf8 bytes with
    | some text => .ok text
    | none => refuse (corruptDefinition s!"{what} is not UTF-8"))

def readJoinState : Reader EngineError JoinState := do
  let stamp ← word (corruptDefinition "truncated join state") 8
  let ceiling ← word (corruptDefinition "truncated join state") 8
  let dimension ← readText "dimension name"
  return ⟨dimension, stamp, (UInt64.ofNat ceiling).toInt64⟩

def readWidth (version : Nat) : Reader EngineError Nat :=
  if 2 ≤ version then word (corruptDefinition "truncated width") 8 else pure 0

def readJoin (version : Nat) : Reader EngineError (Option JoinState) :=
  if version = 3 then some <$> readJoinState else pure none

def readDefinition (version : Nat) : Reader EngineError DefinitionRecord := do
  let stamp ← word (corruptDefinition "truncated") 8
  let width ← readWidth version
  let source ← readText "source name"
  let sql ← readText "definition SQL"
  let join ← readJoin version
  return ⟨stamp, width, source, sql, join⟩

def versionOf (payload : Bytes) : Nat := ofLe ((payload.drop 4).take 2)

/-- Decodes what the checksum covers. What follows the last field is ignored. -/
def decodePayload (payload : Bytes) : Result EngineError DefinitionRecord :=
  if payload.take 4 ≠ definitionMagic then refuse (corruptDefinition "bad magic")
  else if versionOf payload < 1 ∨
    3 < versionOf payload then refuse (corruptDefinition s!"unknown version {versionOf payload}")
  else (readDefinition (versionOf payload) (payload.drop 6)).map Prod.fst

def decodeDefinition (bytes : Bytes) : Result EngineError DefinitionRecord :=
  if bytes.length < 26 then refuse (corruptDefinition "truncated")
  else if (crc32c (bytes.take (bytes.length - 4))).toNat ≠ ofLe
    (bytes.drop (bytes.length - 4)) then refuse (corruptDefinition "checksum mismatch")
  else decodePayload (bytes.take (bytes.length - 4))

/-! ### What is accepted -/

/-- A record that a version can hold. -/
structure DefinitionRecord.Suits (version : Nat) (record : DefinitionRecord) : Prop where
  least : 1 ≤ version
  most : version ≤ 3
  stamp : record.stamp < 256 ^ 8
  width : record.width < 256 ^ 8
  narrow : version < 2 → record.width = 0
  source : (utf8 record.source).length < 256 ^ 4
  sql : (utf8 record.sql).length < 256 ^ 4
  joined : record.join.isSome = decide (version = 3)
  join : ∀ join ∈ record.join, join.stamp < 256 ^ 8 ∧ (utf8 join.dimension).length < 256 ^ 4

section Reading

variable {version : Nat} {record : DefinitionRecord} {join : JoinState}

theorem reads_text (what : String) {text : String} (fits : (utf8 text).length < 256 ^ 4) : Reads
      (readText what) (textField text) text := by
  refine (Reads.word _ fits).bind ?_
  have decoded : Reads (lift (match fromUtf8 (utf8 text) with
      | some text => .ok text
      | none =>
          refuse (corruptDefinition s!"{what} is not UTF-8"))) [] text := .lift (by rw [fromUtf8_utf8])
  exact ((Reads.take _ (utf8 text)).bind decoded).congr (List.append_nil _) rfl

theorem reads_joinState (stamp : join.stamp < 256 ^ 8)
    (dimension : (utf8 join.dimension).length < 256 ^ 4) :
    Reads readJoinState join.fields join := by
  have back : (UInt64.ofNat join.ceiling.toUInt64.toNat).toInt64 = join.ceiling := by simp
  refine (Reads.word _ stamp).bind ((Reads.word _ join.ceiling.toUInt64.toNat_lt).bind ?_)
  refine ((reads_text _ dimension).finish _).congr rfl ?_
  rw [back]

theorem reads_width (suits : record.Suits version) : Reads (readWidth version)
      (if 2 ≤ version then toLe 8 record.width else []) record.width := by
  unfold readWidth
  by_cases new : 2 ≤ version
  · rw [if_pos new, if_pos new]
    exact .word _ suits.width
  · rw [if_neg new, if_neg new, suits.narrow (by omega)]
    exact .pure 0

theorem reads_join (suits : record.Suits version) : Reads (readJoin version)
      (record.join.elim [] JoinState.fields) record.join := by
  unfold readJoin
  have joined := suits.joined
  cases held : record.join with
  | none =>
    have single : version ≠ 3 := by simpa [held] using joined
    rw [if_neg single]
    exact .pure none
  | some state =>
    have both : version = 3 := by simpa [held] using joined
    obtain ⟨fits, named⟩ := suits.join state held
    rw [if_pos both]
    exact (reads_joinState fits named).map some

theorem reads_definition (suits : record.Suits version) : Reads (readDefinition version)
      (record.fields version) record := by
  refine (Reads.word _ suits.stamp).bind
    ((reads_width suits).bind ((reads_text _ suits.source).bind ((reads_text _ suits.sql).bind ?_)))
  exact (reads_join suits).finish _

theorem sound_text (what : String) :
    Sound (readText what) fun text used => (utf8 text).length < 256 ^ 4 ∧ used = textField text := by
  refine .bind (.word _ 4) fun length used₁ ⟨fits, spelt⟩ =>
    .bind (.take _ length) fun bytes used₂ ⟨same, count⟩ => ?_
  refine .lift (fun message failed => ?_) fun text decoded => ?_
  · split at failed <;> cases failed
  · split at decoded
    · next found =>
      obtain rfl := Except.ok.inj decoded
      have spelling := utf8_of_fromUtf8 found
      subst same spelt
      rw [spelling, count]
      exact ⟨fits, by rw [textField, spelling, count, List.append_nil]⟩
    · cases decoded

theorem sound_joinState : Sound readJoinState fun join used =>
    (join.stamp < 256 ^ 8 ∧ (utf8 join.dimension).length < 256 ^ 4) ∧ used = join.fields := by
  refine .bind (.word _ 8) fun stamp used₁ ⟨early, spelt₁⟩ =>
      .bind (.word _ 8) fun ceiling used₂ ⟨high, spelt₂⟩ =>
    .bind (sound_text _) fun dimension used₃ ⟨named, spelt₃⟩ => .pure ⟨⟨early, named⟩, ?_⟩
  have back : (UInt64.ofNat ceiling).toInt64.toUInt64.toNat = ceiling := by
    rw [UInt64.toUInt64_toInt64]
    exact UInt64.toNat_ofNat_of_lt' (by simpa using high)
  rw [spelt₁, spelt₂, spelt₃, JoinState.fields, back, List.append_nil]

theorem sound_width (version : Nat) : Sound (readWidth version) fun width used =>
    (width < 256 ^ 8 ∧ (version < 2 → width = 0)) ∧
    used = if 2 ≤ version then toLe 8 width else [] := by
  unfold readWidth
  by_cases new : 2 ≤ version
  · rw [if_pos new]
    refine (Sound.word _ 8).mono fun width used ⟨fits, spelt⟩ => ⟨⟨fits, fun old => ?_⟩, ?_⟩
    · omega
    · rw [if_pos new]
      exact spelt
  · rw [if_neg new]
    exact .pure ⟨⟨by decide, fun _ => rfl⟩, by rw [if_neg new]⟩

theorem sound_join (version : Nat) : Sound (readJoin version) fun join used =>
    (join.isSome = decide (version = 3) ∧ ∀ state ∈ join, state.stamp < 256 ^ 8 ∧
      (utf8 state.dimension).length < 256 ^ 4) ∧
      used = join.elim [] JoinState.fields := by
  unfold readJoin
  by_cases both : version = 3
  · rw [if_pos both]
    refine .map (sound_joinState.mono fun state used ⟨fits, spelt⟩ => ⟨⟨?_, ?_⟩, spelt⟩)
    · exact (decide_eq_true both).symm
    · rintro other same
      obtain rfl := Option.some.inj same
      exact fits
  · rw [if_neg both]
    exact .pure ⟨⟨(decide_eq_false both).symm, fun state none_ => by cases none_⟩, rfl⟩

theorem sound_definition (least : 1 ≤ version) (most : version ≤ 3) :
    Sound (readDefinition version) fun record used => record.Suits version ∧
    used = record.fields version := by
  refine .bind (.word _ 8) fun stamp used₁ ⟨early, spelt₁⟩ =>
      .bind (sound_width version) fun width used₂ ⟨⟨fits, narrow⟩, spelt₂⟩ =>
    .bind (sound_text _) fun source used₃ ⟨named, spelt₃⟩ =>
      .bind (sound_text _) fun sql used₄ ⟨short, spelt₄⟩ =>
    .bind (sound_join version) fun join used₅ ⟨⟨joined, states⟩, spelt₅⟩ => .pure ⟨?_, ?_⟩
  · exact ⟨least, most, early, fits, narrow, named, short, joined, states⟩
  · rw [spelt₁, spelt₂, spelt₃, spelt₄, spelt₅, DefinitionRecord.fields, List.append_nil]

theorem decodeDefinition_ok {bytes : Bytes} (decoded : decodeDefinition bytes = .ok record) :
    ∃ version rest, record.Suits version ∧
    bytes = checksummed (definitionMagic ++ (toLe 2 version ++ (record.fields version ++ rest))) := by
  unfold decodeDefinition at decoded
  split at decoded
  · cases decoded
  next long =>
  split at decoded
  · cases decoded
  next summed =>
  unfold decodePayload at decoded
  split at decoded
  · cases decoded
  next magic =>
  split at decoded
  · cases decoded
  next known =>
  rw [not_or, Nat.not_lt, Nat.not_lt] at known
  rw [Decidable.not_not] at summed magic
  obtain ⟨⟨read_, rest⟩, taken, rfl⟩ := except_map_ok decoded
  obtain ⟨used, split_, suits, rfl⟩ := (sound_definition known.1 known.2).ok taken
  refine ⟨_, rest, suits, ?_⟩
  have versioned : toLe 2 (versionOf (bytes.take (bytes.length - 4))) =
      ((bytes.take (bytes.length - 4)).drop 4).take 2 := by
    have two : (((bytes.take (bytes.length - 4)).drop 4).take 2).length = 2 := by
      simp only [List.length_take, List.length_drop]
      omega
    have spelt := toLe_ofLe (((bytes.take (bytes.length - 4)).drop 4).take 2)
    rw [two] at spelt
    exact spelt
  have four : (bytes.drop (bytes.length - 4)).length = 4 := by
    rw [List.length_drop]
    omega
  have payload : definitionMagic ++ (toLe 2 (versionOf (bytes.take (bytes.length - 4))) ++
      (read_.fields (versionOf (bytes.take (bytes.length - 4))) ++ rest)) = bytes.take
      (bytes.length - 4) := by
    rw [← split_, versioned, ← magic]
    have fields : (bytes.take (bytes.length - 4)).drop 6 =
        ((bytes.take (bytes.length - 4)).drop 4).drop 2 := by
      rw [List.drop_drop]
    rw [fields, List.take_append_drop, List.take_append_drop]
  have sum : toLe 4 (crc32c (bytes.take (bytes.length - 4))).toNat = bytes.drop (bytes.length - 4) := by
    rw [summed]
    have spelt := toLe_ofLe (bytes.drop (bytes.length - 4))
    rwa [four] at spelt
  rw [payload, checksummed, sum, List.take_append_drop]

theorem decodeDefinition_fields (suits : record.Suits version) (rest : Bytes) :
    decodeDefinition (checksummed
      (definitionMagic ++ (toLe 2 version ++ (record.fields version ++ rest)))) = .ok record := by
  have magic : definitionMagic.length = 4 := by decide
  have least := suits.least
  have most := suits.most
  generalize body : record.fields version ++ rest = fields
  have long : 16 ≤ fields.length := by
    rw [← body, DefinitionRecord.fields, textField, textField]
    simp only [List.length_append, toLe_length]
    omega
  generalize whole : definitionMagic ++ (toLe 2 version ++ fields) = payload
  have count : payload.length = 6 + fields.length := by
    rw [← whole, List.length_append, List.length_append, magic, toLe_length]
    omega
  have length : (checksummed payload).length = payload.length + 4 := by
    rw [checksummed, List.length_append, toLe_length]
  have front : (checksummed payload).take ((checksummed payload).length - 4) = payload := by
    rw [length, Nat.add_sub_cancel, checksummed, List.take_left]
  have back : (checksummed payload).drop ((checksummed payload).length - 4) = toLe 4
      (crc32c payload).toNat := by
    rw [length, Nat.add_sub_cancel, checksummed, List.drop_left]
  have first : payload.take 4 = definitionMagic := by
    rw [← whole, ← magic, List.take_left]
  have later : payload.drop 4 = toLe 2 version ++ fields := by
    rw [← whole, ← magic, List.drop_left]
  have second : (payload.drop 4).take 2 = toLe 2 version := by
    rw [later]
    exact List.take_left' (toLe_length 2 version)
  have third : payload.drop 6 = fields := by
    have drops : payload.drop 6 = (payload.drop 4).drop 2 := by rw [List.drop_drop]
    rw [drops, later]
    exact List.drop_left' (toLe_length 2 version)
  have versioned : versionOf payload = version := by
    rw [versionOf, second]
    exact ofLe_toLe_of_lt (by omega)
  unfold decodeDefinition decodePayload
  rw [if_neg (by rw [length, count]; omega), front, back, ofLe_toLe_of_lt (crc32c payload).toNat_lt]
  simp only [ne_eq, not_true_eq_false, if_false, first, versioned, third]
  rw [if_neg (by omega), ← body, (reads_definition suits).takes]
  rfl

/-- Bytes are accepted as a record if and only if they are its fields under a version that can hold
it, perhaps with more behind them, between the magic and the checksum of it all. -/
theorem decodeDefinition_iff {bytes : Bytes} : decodeDefinition bytes = .ok record ↔ ∃ version rest,
    record.Suits version ∧
    bytes = checksummed (definitionMagic ++ (toLe 2 version ++ (record.fields version ++ rest))) := by
  constructor
  · exact decodeDefinition_ok
  · rintro ⟨version, rest, suits, rfl⟩
    exact decodeDefinition_fields suits rest

/-- What is written is read back. -/
theorem decodeDefinition_encode (stamp : record.stamp < 256 ^ 8) (width : record.width < 256 ^ 8)
    (source : (utf8 record.source).length < 256 ^ 4)
    (sql : (utf8 record.sql).length < 256 ^ 4)
    (join : ∀ state ∈ record.join, state.stamp < 256 ^ 8 ∧ (utf8 state.dimension).length < 256 ^ 4) :
    decodeDefinition (encodeDefinition record) = .ok record := by
  have suits : record.Suits (if record.join.isSome then 3 else 2) := by
    refine ⟨?_, ?_, stamp, width, ?_, source, sql, ?_, join⟩
    · split <;> decide
    · split <;> decide
    · split <;> (intro early; omega)
    · cases record.join <;> rfl
  have read := decodeDefinition_fields suits []
  rw [List.append_nil] at read
  exact read

end Reading

end TallyDB
