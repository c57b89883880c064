import TallyDB.StorageLite.RoundTrip

/-!
# Delete logs

The bytes of a delete log: the row ids that one mutation killed, when it was known, and the
supersession that it commits. The integer codecs underneath give back what they were given.
-/

namespace TallyDB

open Wire Reader

/-- One bit of the reflected IEEE polynomial, which is not that of the segment files. -/
def ieeeStep (crc : UInt32) : UInt32 := if crc &&& 1 ≠ 0 then (crc >>> 1) ^^^ 0xedb88320 else crc >>> 1

def crc32 (bytes : Bytes) : UInt32 :=
  ~~~(bytes.foldl (fun crc byte =>
    (crc >>> 8) ^^^ Nat.iterate ieeeStep 8 ((crc ^^^ byte.toUInt32) &&& 0xff)) 0xffffffff)

def tombstoneMagic : Bytes := utf8 "TALLYDEL"

/-- A set of row ids, in ascending order. -/
structure RowIds where
  ids : List UInt64
  ascending : ids.Pairwise (· < ·)
  counted : ids.length < 2 ^ 64

/-- One decoded delete log; a stamp of 0 is unknown, a superseding of 0 is a plain delete. -/
structure DecodedDeleteLog where
  ids : List UInt64
  stampedAt : UInt64
  superseding : UInt64
  deriving DecidableEq

def tombstonePayload (ids : RowIds) (stampedAt superseding : UInt64) : Bytes :=
  toLe 8 stampedAt.toNat ++
    (toLe 8 superseding.toNat ++
    (toLe 8 ids.ids.length ++ encodeDeltaOfDelta (ids.ids.map UInt64.toInt64)))

def encodeTombstones (ids : RowIds) (stampedAt superseding : UInt64) : Bytes :=
  let payload := tombstonePayload ids stampedAt superseding
  tombstoneMagic ++ (toLe 2 2 ++ (toLe 2 0 ++ (toLe 4 (crc32 payload).toNat ++ payload)))

def ascendingIds (previous : Option UInt64) : List Int64 → Result FormatError (List UInt64)
  | [] => .ok []
  | value :: values => do
    let id := value.toUInt64
    let _ ←
      if previous.any (id ≤ ·) then refuse (.corrupt "delete log row ids are not strictly ascending")
      else .ok ()
    let rest ← ascendingIds (some id) values
    .ok (id :: rest)

def decodeTombstones (bytes : Bytes) : Result FormatError DecodedDeleteLog := do
  if bytes.length < 24 then refuse (.corrupt "delete log too short")
  else if bytes.take 8 ≠ tombstoneMagic then refuse .badMagic
  else
    let version := ofLe ((bytes.drop 8).take 2)
    if version ≠ 1 ∧ version ≠ 2 then refuse (.unsupportedVersion version)
    else if (bytes.drop 10).take 2 ≠ [0, 0] then refuse (.corrupt "reserved header bytes are not zero")
    else
      let stored := ofLe ((bytes.drop 12).take 4)
      let computed := (crc32 (bytes.drop 16)).toNat
      if stored ≠ computed then refuse (.checksumMismatch stored computed)
      else if version = 2 ∧ bytes.length < 40 then refuse (.corrupt "delete log too short")
      else
        let (stampedAt, superseding, position) :=
          if version = 2 then (ofLe ((bytes.drop 16).take 8), ofLe ((bytes.drop 24).take 8), 32)
            else (0, 0, 16)
        let count := ofLe ((bytes.drop position).take 8)
        let signed ← recast .codec (decodeDeltaOfDelta (bytes.drop (position + 8)) count)
        let ids ← ascendingIds none signed
        .ok { ids, stampedAt := .ofNat stampedAt, superseding := .ofNat superseding }

/-! ### What was encoded -/

theorem ascendingIds_ok {previous : Option UInt64} {ids : List UInt64}
    (ascending : ids.Pairwise (· < ·))
    (above : ∀ last ∈ previous, ∀ id ∈ ids, last < id) : ascendingIds previous
      (ids.map UInt64.toInt64) = .ok ids := by
  induction ids generalizing previous with
  | nil => rfl
  | cons id rest ih =>
    obtain ⟨later, ascending⟩ := List.pairwise_cons.mp ascending
    have passes : previous.any (id ≤ ·) = false := by
      cases previous with
      | none => rfl
      | some last => simpa using above last rfl id List.mem_cons_self
    rw [List.map_cons, ascendingIds]
    simp only [UInt64.toUInt64_toInt64, passes]
    rw [ih ascending fun last same => Option.some.inj same ▸ later]
    rfl

theorem drop_known {front back : Bytes} {n : Nat} (length : front.length = n) :
    (front ++ back).drop n = back := by
  rw [← length, List.drop_left]

theorem drop_next {bytes front back : Bytes} {n m : Nat} (here : bytes.drop n = front ++ back)
    (length : front.length = m) :
    bytes.drop (n + m) = back := by
  rw [← List.drop_drop, here, drop_known length]

theorem take_known {front back : Bytes} {n : Nat} (length : front.length = n) :
    (front ++ back).take n = front := by
  rw [← length, List.take_left]

/-- Every part of an encoded log stands where the decoder looks for it. -/
theorem encodeTombstones_parts (ids : RowIds) (stampedAt superseding : UInt64) :
    (encodeTombstones ids stampedAt superseding).take 8 = tombstoneMagic ∧
      ((encodeTombstones ids stampedAt superseding).drop 8).take 2 = toLe 2 2 ∧
      ((encodeTombstones ids stampedAt superseding).drop 10).take 2 = toLe 2 0 ∧
      ((encodeTombstones ids stampedAt superseding).drop 12).take 4 = toLe 4
      (crc32 (tombstonePayload ids stampedAt superseding)).toNat ∧
      (encodeTombstones ids stampedAt superseding).drop 16 = tombstonePayload ids stampedAt
        superseding := by
  have magic : tombstoneMagic.length = 8 := by decide
  have after8 : (encodeTombstones ids stampedAt superseding).drop 8 = _ := drop_known magic
  have after10 : (encodeTombstones ids stampedAt superseding).drop 10 = _ :=
    drop_next after8 (toLe_length 2 2)
  have after12 : (encodeTombstones ids stampedAt superseding).drop 12 = _ :=
    drop_next after10 (toLe_length 2 0)
  refine ⟨take_known magic, ?_, ?_, ?_, ?_⟩
  · rw [after8, take_known (toLe_length 2 2)]
  · rw [after10, take_known (toLe_length 2 0)]
  · rw [after12, take_known (toLe_length 4 _)]
  · exact drop_next after12 (toLe_length 4 _)

theorem tombstonePayload_parts (ids : RowIds) (stampedAt superseding : UInt64) :
    (tombstonePayload ids stampedAt superseding).take 8 = toLe 8 stampedAt.toNat ∧
      ((tombstonePayload ids stampedAt superseding).drop 8).take 8 = toLe 8 superseding.toNat ∧
      ((tombstonePayload ids stampedAt superseding).drop 16).take 8 = toLe 8 ids.ids.length ∧
      (tombstonePayload ids stampedAt superseding).drop 24 = encodeDeltaOfDelta
      (ids.ids.map UInt64.toInt64) := by
  have after8 : (tombstonePayload ids stampedAt superseding).drop 8 = _ := drop_known (toLe_length 8 _)
  have after16 : (tombstonePayload ids stampedAt superseding).drop 16 = _ :=
    drop_next after8 (toLe_length 8 _)
  refine ⟨take_known (toLe_length 8 _), ?_, ?_, ?_⟩
  · rw [after8, take_known (toLe_length 8 _)]
  · rw [after16, take_known (toLe_length 8 _)]
  · exact drop_next after16 (toLe_length 8 _)

/-- A delete log decodes to what was encoded. -/
theorem decode_encodeTombstones (ids : RowIds) (stampedAt superseding : UInt64) :
    decodeTombstones (encodeTombstones ids stampedAt superseding) =
      .ok ⟨ids.ids, stampedAt, superseding⟩ := by
  obtain ⟨magic, version, reserved, checksum, payload⟩ :=
    encodeTombstones_parts ids stampedAt superseding
  obtain ⟨stamp, bracket, count, values⟩ := tombstonePayload_parts ids stampedAt superseding
  have long : 40 ≤ (encodeTombstones ids stampedAt superseding).length := by
    simp only [encodeTombstones, tombstonePayload, List.length_append, toLe_length,
      show tombstoneMagic.length = 8 by decide]
    omega
  have after24 : ((encodeTombstones ids stampedAt superseding).drop 24).take 8 =
      toLe 8 superseding.toNat := by
    rw [show 24 = 16 + 8 by rfl, ← List.drop_drop, payload, bracket]
  have after32 : ((encodeTombstones ids stampedAt superseding).drop 32).take 8 =
      toLe 8 ids.ids.length := by
    rw [show 32 = 16 + 16 by rfl, ← List.drop_drop, payload, count]
  have after40 : (encodeTombstones ids stampedAt superseding).drop (32 + 8) = encodeDeltaOfDelta
      (ids.ids.map UInt64.toInt64) := by
    rw [show 32 + 8 = 16 + 24 by rfl, ← List.drop_drop, payload, values]
  have decoded := decode_encodeDeltaOfDelta (ids.ids.map UInt64.toInt64)
  rw [List.length_map] at decoded
  have ascends : ascendingIds none (ids.ids.map UInt64.toInt64) = .ok ids.ids :=
    ascendingIds_ok ids.ascending fun last absent => (Option.not_mem_none last absent).elim
  unfold decodeTombstones
  rw [if_neg (by omega), if_neg (not_not.mpr magic)]
  simp only [version, reserved, checksum, payload]
  rw [ofLe_toLe_of_lt (by decide), ofLe_toLe_of_lt (UInt32.toNat_lt _), if_neg (by decide),
    if_neg (by decide), if_neg (by simp), if_neg (by omega)]
  simp only [if_true, stamp, after24, after32, after40]
  rw [ofLe_toLe_of_lt (show stampedAt.toNat < 256 ^ 8 from stampedAt.toNat_lt),
    ofLe_toLe_of_lt (show superseding.toNat < 256 ^ 8 from superseding.toNat_lt),
    ofLe_toLe_of_lt (show ids.ids.length < 256 ^ 8 from ids.counted), decoded]
  change (ascendingIds none _ >>= _) = _
  rw [ascends]
  simp [bind, Except.bind]

/-! ### The integer codecs together -/

/-- Every strict prefix of the bytes is refused. -/
def RefusesPrefixes {α : Type} (decode : Bytes → Nat → Result CodecError (List α)) (bytes : Bytes)
    (count : Nat) : Prop :=
  ∀ front back, bytes = front ++ back → back ≠ [] → ∃ error,
    decode front count = .error (.refused error)

theorem refusesPrefixes {α : Type} {reader : Nat → Reader CodecError (List α)} {bytes : Bytes}
    {values : List α}
    (reads : Reads (reader values.length) bytes values) :
    RefusesPrefixes (fun bytes count => exactly .trailingBytes (reader count) bytes) bytes
      values.length := by
  rintro front back rfl more
  exact reads.exactly_short _ more

/-- Integer columns and delete logs decode to what was encoded, and no column does from a part of
its bytes. -/
theorem integer_codecs_exact :
    (∀ values : List Int64, decodeDeltaOfDelta (encodeDeltaOfDelta values) values.length = .ok values ∧
      decodeForI64 (encodeForI64 values) values.length = .ok values) ∧
    (∀ values : List UInt32, decodeForU32 (encodeForU32 values) values.length = .ok values) ∧
    (∀ ids stampedAt superseding, decodeTombstones (encodeTombstones ids stampedAt superseding) =
      .ok ⟨ids.ids, stampedAt, superseding⟩) ∧
    (∀ values : List Int64,
      RefusesPrefixes decodeDeltaOfDelta (encodeDeltaOfDelta values) values.length ∧
      RefusesPrefixes decodeForI64 (encodeForI64 values) values.length) ∧
    ∀ values : List UInt32, RefusesPrefixes decodeForU32 (encodeForU32 values) values.length :=
  ⟨fun values => ⟨decode_encodeDeltaOfDelta values, (forI64_reads values).exactly _⟩,
    fun values => (forU32_reads values).exactly _,
    decode_encodeTombstones,
    fun values => ⟨refusesPrefixes (deltaOfDelta_reads values), refusesPrefixes (forI64_reads values)⟩,
    fun values => refusesPrefixes (forU32_reads values)⟩

end TallyDB
