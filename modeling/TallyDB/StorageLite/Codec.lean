import TallyDB.StorageLite.Io
import TallyDB.Wire.Reader

/-!
# Column codecs

The codec registry, and delta-of-delta for clock-like integers: the first value, the first
delta, then second differences, each as a zigzag varint. All of its arithmetic wraps.
-/

namespace TallyDB

open Wire Reader

inductive Codec where
  | uncompressed | deltaOfDeltaI64 | alpF64 | forI64 | forU32
  deriving DecidableEq, Repr

namespace Codec

def tag : Codec → UInt8
  | uncompressed => 0
  | deltaOfDeltaI64 => 1
  | alpF64 => 2
  | forI64 => 3
  | forU32 => 4

def fromTag (tag : UInt8) : Option Codec :=
  if tag = 0 then some uncompressed else if tag = 1 then some deltaOfDeltaI64 else if tag =
    2 then some alpF64
  else if tag = 3 then some forI64 else if tag = 4 then some forU32 else none

theorem fromTag_tag (codec : Codec) : fromTag codec.tag = some codec := by
  cases codec <;> rfl

end Codec

/-! ### Zigzag -/

/-- Small magnitudes of either sign become small numbers. -/
def zigzag (value : Int64) : UInt64 := ((value <<< 1) ^^^ (value >>> 63)).toUInt64

def unzigzag (value : UInt64) : Int64 := (value >>> 1).toInt64 ^^^ -(value &&& 1).toInt64

/-- All ones if the lowest bit is set, and all zeros if it is not. -/
theorem neg_and_one (bits : BitVec 64) :
    -(bits &&& 1#64) = if bits.getLsbD 0 then BitVec.allOnes 64 else 0 := by
  have low : bits &&& 1#64 = if bits.getLsbD 0 then 1#64 else 0 := by
    apply BitVec.eq_of_getLsbD_eq
    intro i inside
    cases i with
    | zero => cases set : bits.getLsbD 0 <;> simp_all
    | succ i => cases set : bits.getLsbD 0 <;> simp [BitVec.getLsbD_one]
  rw [low]
  split <;> decide

theorem getLsbD_sign (bits : BitVec 64) {i : Nat} (inside : i < 64) :
    (bits.sshiftRight 63).getLsbD i = bits.getLsbD 63 := by
  rw [BitVec.getLsbD_sshiftRight, show decide (64 ≤ i) = false by
      simpa using inside, Bool.not_false, Bool.true_and]
  by_cases first : i = 0
  · subst first
    rfl
  · rw [if_neg (by omega), BitVec.msb_eq_getLsbD_last]

theorem getLsbD_spread (bits : BitVec 64) {i : Nat} (inside : i < 64) :
    (-(bits &&& 1#64)).getLsbD i = bits.getLsbD 0 := by
  rw [neg_and_one]
  cases bits.getLsbD 0
  · exact BitVec.getLsbD_zero
  · rw [if_pos rfl, BitVec.getLsbD_allOnes]
    simpa using inside

theorem unzigzag_zigzag (value : Int64) : unzigzag (zigzag value) = value := by
  apply Int64.toBitVec_inj.mp
  show ((value.toBitVec <<< 1) ^^^ value.toBitVec.sshiftRight 63) >>> 1 ^^^
    -(((value.toBitVec <<< 1) ^^^ value.toBitVec.sshiftRight 63) &&& 1#64) = value.toBitVec
  generalize value.toBitVec = bits
  apply BitVec.eq_of_getLsbD_eq
  intro i inside
  rw [BitVec.getLsbD_xor, getLsbD_spread _ inside, BitVec.getLsbD_ushiftRight, BitVec.getLsbD_xor,
    BitVec.getLsbD_xor,
    getLsbD_sign (i := 0) bits (by omega), BitVec.getLsbD_shiftLeft, BitVec.getLsbD_shiftLeft]
  by_cases last : i = 63
  · subst last
    rw [BitVec.getLsbD_of_ge (bits.sshiftRight 63) (1 + 63) (by omega)]
    simp
  · rw [getLsbD_sign (i := 1 + i) bits (by omega), show 1 + i - 1 = i by omega,
      show decide (1 + i < 64) = true by simp; omega,
      show decide (1 + i < 1) = false by simp]
    cases bits.getLsbD i <;> cases bits.getLsbD 63 <;> rfl

theorem zigzag_unzigzag (value : UInt64) : zigzag (unzigzag value) = value := by
  apply UInt64.toBitVec_inj.mp
  show ((value.toBitVec >>> 1 ^^^ -(value.toBitVec &&& 1#64)) <<< 1) ^^^
    (value.toBitVec >>> 1 ^^^ -(value.toBitVec &&& 1#64)).sshiftRight 63 = value.toBitVec
  generalize value.toBitVec = bits
  apply BitVec.eq_of_getLsbD_eq
  intro i inside
  rw [BitVec.getLsbD_xor, getLsbD_sign _ inside, BitVec.getLsbD_shiftLeft, BitVec.getLsbD_xor,
    BitVec.getLsbD_xor,
    getLsbD_spread _ (by omega), getLsbD_spread _ (by omega), BitVec.getLsbD_ushiftRight,
    BitVec.getLsbD_ushiftRight,
    BitVec.getLsbD_of_ge bits (1 + 63) (by omega)]
  by_cases first : i = 0
  · subst first
    simp
  · rw [show 1 + (i - 1) = i by omega, show decide (i < 64) = true by simpa using inside,
      show decide (i < 1) = false by simpa using first]
    cases bits.getLsbD i <;> cases bits.getLsbD 0 <;> rfl

/-! ### Varints -/

/-- A LEB128 varint: seven bits a byte, the high bit for "more". -/
def pushVarint (value : Nat) : Bytes :=
  if value >>> 7 = 0 then [UInt8.ofNat (value &&& 0x7f)]
  else UInt8.ofNat (value &&& 0x7f ||| 0x80) :: pushVarint (value >>> 7)
termination_by value
decreasing_by
  rw [Nat.shiftRight_eq_div_pow] at *
  omega

/-- The loop of `readVarint` with `left` bytes still allowed; a shift drops what leaves the word. -/
def readVarintFrom : Nat → Nat → Nat → Reader CodecError Nat
  | 0, _, _ => lift (refuse .varintTooLong)
  | left + 1, shift, value => do
    let byte ← byte .truncated
    let value := value ||| (byte.toNat &&& 0x7f) <<< (7 * shift) % 2 ^ 64
    if byte &&& 0x80 = 0 then return value else readVarintFrom left (shift + 1) value

def readVarint : Reader CodecError Nat := readVarintFrom 10 0 0

theorem low7 (value : Nat) : value &&& 0x7f = value % 128 := Nat.and_two_pow_sub_one_eq_mod value 7

theorem or80 {value : Nat} (small : value < 128) : value ||| 0x80 = value + 128 := by
  have sum := Nat.two_pow_add_eq_or_of_lt (i := 7) small 1
  rw [Nat.or_comm, Nat.add_comm]
  exact sum.symm

theorem shr7 (value : Nat) : value >>> 7 = value / 128 := Nat.shiftRight_eq_div_pow value 7

theorem more_iff (byte : UInt8) : byte &&& 0x80 = 0 ↔ byte.toNat < 128 := by
  have all : ∀ bits : Fin 256, bits.val &&& 128 = 0 ↔ bits.val < 128 := by decide +kernel
  rw [← UInt8.toNat_inj, UInt8.toNat_and]
  exact all ⟨byte.toNat, byte.toNat_lt⟩

theorem pushVarint_last {value : Nat} (small : value < 128) :
    pushVarint value = [UInt8.ofNat value] := by
  rw [pushVarint, shr7, if_pos (by omega), low7, Nat.mod_eq_of_lt small]

theorem pushVarint_more {value : Nat} (large : 128 ≤ value) :
    pushVarint value = UInt8.ofNat (value % 128 + 128) :: pushVarint (value / 128) := by
  rw [pushVarint, shr7, if_neg (by omega), low7, or80 (Nat.mod_lt _ (by omega))]

theorem pushVarint_length {value count : Nat} (fits : value < 2 ^ (7 * (count + 1))) :
    (pushVarint value).length ≤ count + 1 := by
  induction count generalizing value with
  | zero => rw [pushVarint_last (by omega), List.length_singleton]
  | succ count ih =>
    by_cases small : value < 128
    · rw [pushVarint_last small, List.length_singleton]
      omega
    · rw [pushVarint_more (by omega), List.length_cons]
      have shorter : value / 128 < 2 ^ (7 * (count + 1)) := by
        rw [show 7 * (count + 1 + 1) = 7 * (count + 1) + 7 by omega, Nat.pow_add] at fits
        omega
      have := ih shorter
      omega

/-- Seven more bits above the ones read. -/
theorem or_shift {acc value shift : Nat} (below : acc < 2 ^ shift) :
    acc ||| value <<< shift = acc + 2 ^ shift * value := by
  rw [Nat.or_comm, Nat.shiftLeft_eq, Nat.mul_comm value,
    ← Nat.two_pow_add_eq_or_of_lt below, Nat.add_comm]

/-- The low seven bits of a byte, shifted into place, stay in the word. -/
theorem readVarintFrom_step {left shift acc : Nat} {byte : UInt8} {value : Nat}
    (low : byte.toNat % 128 = value)
    (below : acc < 2 ^ (7 * shift)) (fits : value * 2 ^ (7 * shift) < 2 ^ 64)
    {bytes : Bytes} {result : Nat}
    (next : Reads (if byte.toNat < 128 then pure (acc + 2 ^ (7 * shift) * value)
      else readVarintFrom left (shift + 1) (acc + 2 ^ (7 * shift) * value)) bytes result) :
    Reads (readVarintFrom (left + 1) shift acc) (byte :: bytes) result := by
  have taken : acc ||| (byte.toNat &&& 0x7f) <<< (7 * shift) % 2 ^ 64 = acc + 2 ^
      (7 * shift) * value := by
    rw [low7, low, Nat.shiftLeft_eq, Nat.mod_eq_of_lt fits, ← Nat.shiftLeft_eq, or_shift below]
  have first : Reads (Reader.byte CodecError.truncated) [byte] byte := .byte _ byte
  refine first.bind ?_
  simp only [more_iff, taken]
  exact next

theorem readVarintFrom_reads {left shift value acc : Nat} (room : 0 < left) (total : left + shift = 10)
    (below : acc < 2 ^ (7 * shift)) (fits : value * 2 ^ (7 * shift) < 2 ^ 64) :
    Reads (readVarintFrom left shift acc) (pushVarint value) (acc + 2 ^ (7 * shift) * value) := by
  induction left generalizing shift value acc with
  | zero => omega
  | succ left ih =>
    by_cases small : value < 128
    · rw [pushVarint_last small]
      have byte : (UInt8.ofNat value).toNat = value := by
        rw [UInt8.toNat_ofNat']
        omega
      refine readVarintFrom_step (by omega) below fits ?_
      rw [if_pos (by omega)]
      exact .pure _
    · rw [pushVarint_more (by omega)]
      have byte : (UInt8.ofNat (value % 128 + 128)).toNat = value % 128 + 128 := by
        rw [UInt8.toNat_ofNat']
        omega
      have power : 2 ^ (7 * (shift + 1)) = 2 ^ (7 * shift) * 128 := by
        rw [show 7 * (shift + 1) = 7 * shift + 7 by omega, Nat.pow_add]
      have smaller : value % 128 * 2 ^ (7 * shift) < 2 ^ 64 :=
        Nat.lt_of_le_of_lt (Nat.mul_le_mul_right _ (Nat.mod_le value 128)) fits
      have room' : 0 < left := by
        rcases Nat.eq_zero_or_pos left with rfl | positive
        · obtain rfl : shift = 9 := by omega
          omega
        · exact positive
      refine readVarintFrom_step (by
          omega : (UInt8.ofNat (value % 128 + 128)).toNat % 128 = value % 128) below smaller ?_
      rw [if_neg (by omega)]
      refine .congr (ih room' (by omega) ?_ ?_) rfl ?_
      · rw [power]
        have := Nat.mul_le_mul_left (2 ^ (7 * shift)) (show value % 128 ≤ 127 by omega)
        omega
      · rw [power, Nat.mul_comm (2 ^ (7 * shift)), ← Nat.mul_assoc]
        exact Nat.lt_of_le_of_lt (Nat.mul_le_mul_right _ (Nat.div_mul_le_self value 128)) fits
      · rw [power, Nat.mul_assoc, Nat.add_assoc, ← Nat.mul_add,
          show value % 128 + 128 * (value / 128) = value by omega]

theorem readVarint_reads {value : Nat} (fits : value < 2 ^ 64) : Reads readVarint
      (pushVarint value) value := by
  have reads := readVarintFrom_reads (by omega : 0 < 10) (by omega : 10 + 0 = 10)
    (by decide : 0 < 2 ^ (7 * 0)) (by omega : value * 2 ^ (7 * 0) < 2 ^ 64)
  rw [Nat.mul_zero, Nat.pow_zero, Nat.one_mul, Nat.zero_add] at reads
  exact reads

/-- No bytes give a number outside the word, nor one that could be written in fewer. -/
theorem readVarintFrom_sound {left shift acc : Nat} (below : acc < 2 ^ (7 * shift))
    (word : acc < 2 ^ 64) :
    Sound (readVarintFrom left shift acc) fun value used =>
      value < 2 ^ 64 ∧ used ≠ [] ∧ value < 2 ^ (7 * (shift + used.length)) := by
  induction left generalizing shift acc with
  | zero => exact .refuse _
  | succ left ih =>
    refine .bind (.byte _) fun first used same => ?_
    subst same
    have low : first.toNat &&& 0x7f < 2 ^ 7 := by
      rw [low7]
      exact Nat.mod_lt _ (by decide)
    have shifted : (first.toNat &&& 0x7f) <<< (7 * shift) < 2 ^ (7 * (shift + 1)) := by
      rw [Nat.shiftLeft_eq, show 7 * (shift + 1) = 7 + 7 * shift by omega, Nat.pow_add]
      exact Nat.mul_lt_mul_of_pos_right low (Nat.two_pow_pos _)
    have wider : acc < 2 ^ (7 * (shift + 1)) :=
      Nat.lt_of_lt_of_le below (Nat.pow_le_pow_right (by decide) (by omega))
    have below' := Nat.or_lt_two_pow wider (Nat.lt_of_le_of_lt (Nat.mod_le _ (2 ^ 64)) shifted)
    have word' := Nat.or_lt_two_pow word
      (Nat.mod_lt ((first.toNat &&& 0x7f) <<< (7 * shift)) (Nat.two_pow_pos 64))
    by_cases last : first &&& 0x80 = 0
    · rw [if_pos last]
      exact .pure ⟨word', by simp, below'⟩
    · rw [if_neg last]
      refine (ih below' word').mono fun value used good => ⟨good.1, by simp, ?_⟩
      rw [List.singleton_append, List.length_cons, show shift + (used.length + 1) = shift + 1 +
        used.length by omega]
      exact good.2.2

theorem readVarint_sound :
    Sound readVarint fun value used => value < 2 ^ 64 ∧ (pushVarint value).length ≤ used.length := by
  refine (readVarintFrom_sound (by decide) (by decide)).mono fun value used good => ⟨good.1, ?_⟩
  obtain ⟨count, same⟩ := Nat.exists_eq_add_of_le' (List.length_pos_iff.mpr good.2.1)
  have fits := good.2.2
  rw [Nat.zero_add, same] at fits
  rw [same]
  exact pushVarint_length fits

/-! ### Delta-of-delta -/

def pushSigned (value : Int64) : Bytes := pushVarint (zigzag value).toNat

def readSigned : Reader CodecError Int64 := (fun value => unzigzag (UInt64.ofNat value)) <$> readVarint

theorem readSigned_reads (value : Int64) : Reads readSigned (pushSigned value) value := by
  have reads := (readVarint_reads (zigzag value).toNat_lt).map fun value =>
    unzigzag (UInt64.ofNat value)
  rw [UInt64.ofNat_toNat, unzigzag_zigzag] at reads
  exact reads

theorem readSigned_sound : Sound readSigned fun value used => (pushSigned value).length ≤ used.length :=
  .map (readVarint_sound.mono fun value used good => by
    rw [pushSigned, zigzag_unzigzag, UInt64.toNat_ofNat_of_lt' good.1]
    exact good.2)

/-- The values after the first; the value at index one has no delta before it. -/
def encodeSteps (index : Nat) (previous previousDelta : Int64) : List Int64 → Bytes
  | [] => []
  | value :: values =>
    let delta := value - previous
    pushSigned (if index = 1 then delta else delta - previousDelta) ++ encodeSteps
      (index + 1) value delta values

def encodeDeltaOfDelta : List Int64 → Bytes
  | [] => []
  | first :: values => pushSigned first ++ encodeSteps 1 first 0 values

def decodeSteps (index : Nat) (value delta : Int64) : Nat → Reader CodecError (List Int64)
  | 0 => pure []
  | count + 1 => do
    let step ← readSigned
    let delta := if index = 1 then step else delta + step
    let value := value + delta
    let rest ← decodeSteps (index + 1) value delta count
    return value :: rest

def deltaOfDelta : Nat → Reader CodecError (List Int64)
  | 0 => pure []
  | count + 1 => do
    let first ← readSigned
    let rest ← decodeSteps 1 first 0 count
    return first :: rest

/-- Decodes exactly `count` values; anything else in the bytes is an error. The capacity that the code
asks for first may be too large, which `withCapacity` adds for an untrusted `count`. -/
def decodeDeltaOfDelta (bytes : Bytes) (count : Nat) : Result CodecError (List Int64) :=
  exactly .trailingBytes (deltaOfDelta count) bytes

theorem decodeSteps_reads (index : Nat) (previous previousDelta : Int64) (values : List Int64) :
    Reads (decodeSteps index previous previousDelta values.length)
      (encodeSteps index previous previousDelta values) values := by
  induction values generalizing index previous previousDelta with
  | nil => exact .pure []
  | cons value values ih =>
    rw [encodeSteps, List.length_cons, decodeSteps]
    refine (readSigned_reads _).bind ?_
    have delta : (if index = 1 then if index =
      1 then value - previous else value - previous - previousDelta
        else previousDelta + if index =
        1 then value - previous else value - previous - previousDelta) = value - previous := by
      split
      · rfl
      · grind
    have same : previous + (value - previous) = value := by grind
    simp only [delta, same]
    exact (ih (index + 1) value (value - previous)).finish (value :: ·)

theorem deltaOfDelta_reads (values : List Int64) : Reads (deltaOfDelta values.length)
      (encodeDeltaOfDelta values) values := by
  cases values with
  | nil => exact .pure []
  | cons first values =>
      exact (readSigned_reads first).bind ((decodeSteps_reads 1 first 0 values).finish (first :: ·))

theorem decode_encodeDeltaOfDelta (values : List Int64) :
    decodeDeltaOfDelta (encodeDeltaOfDelta values) values.length = .ok values :=
  (deltaOfDelta_reads values).exactly _

theorem decodeSteps_sound (index : Nat) (value delta : Int64) (count : Nat) :
    Sound (decodeSteps index value delta count) fun values used =>
      values.length = count ∧ (encodeSteps index value delta values).length ≤ used.length := by
  induction count generalizing index value delta with
  | zero => exact .pure ⟨rfl, Nat.le_refl 0⟩
  | succ count ih =>
    refine .bind readSigned_sound fun step used short => ?_
    refine .bind (ih _ _ _) fun values used' good => .pure ⟨by rw [List.length_cons, good.1], ?_⟩
    have back (delta' : Int64) : value + delta' - value = delta' := by grind
    have step' : (if index = 1 then if index = 1 then step else delta + step
        else (if index = 1 then step else delta + step) - delta) = step := by
      split
      · rfl
      · grind
    rw [encodeSteps]
    simp only [back, step', List.length_append, List.append_nil]
    exact Nat.add_le_add short good.2

/-- What is decoded could not have been written in fewer bytes. -/
theorem deltaOfDelta_sound (count : Nat) : Sound (deltaOfDelta count) fun values used =>
    values.length = count ∧ (encodeDeltaOfDelta values).length ≤ used.length := by
  cases count with
  | zero => exact .pure ⟨rfl, Nat.le_refl 0⟩
  | succ count =>
    refine .bind readSigned_sound fun first used short => ?_
    refine .bind (decodeSteps_sound 1 first 0 count) fun values used' good =>
      .pure ⟨by rw [List.length_cons, good.1], ?_⟩
    simp only [encodeDeltaOfDelta, List.length_append, List.append_nil]
    exact Nat.add_le_add short good.2

end TallyDB
