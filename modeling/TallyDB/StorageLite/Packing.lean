import Mathlib.Data.Nat.Bitwise
import TallyDB.StorageLite.Codec

/-!
# Bit packing

Values of a fixed bit width in one little-endian bit stream, and the integer codecs over it:
each chunk of a column holds its minimum and the packed differences from it.
-/

namespace TallyDB

open Wire Reader

/-! ### Packing -/

def drain (acc bits : Nat) : Bytes × Nat × Nat :=
  if 8 ≤ bits then
    let (out, acc', bits') := drain (acc >>> 8) (bits - 8)
    (UInt8.ofNat (acc &&& 0xff) :: out, acc', bits')
  else ([], acc, bits)
termination_by bits

def packFrom (width : Nat) : List UInt64 → Nat → Nat → Bytes
  | [], acc, bits => if 0 < bits then [UInt8.ofNat (acc &&& 0xff)] else []
  | value :: values, acc, bits =>
    let (out, acc', bits') := drain (acc ||| value.toNat <<< bits) (bits + width)
    out ++ packFrom width values acc' bits'

/-- Appends nothing at width zero. -/
def packBits (values : List UInt64) (width : Nat) : Bytes :=
  if width = 0 then [] else packFrom width values 0 0

def streamOf (width : Nat) (values : List UInt64) : Nat :=
  Nat.ofDigits (2 ^ width) (values.map UInt64.toNat)

theorem streamOf_cons (width : Nat) (value : UInt64) (values : List UInt64) :
    streamOf width (value :: values) = value.toNat + 2 ^ width * streamOf width values := by
  simp [streamOf, Nat.ofDigits_cons]

theorem ofNat_and (acc : Nat) : UInt8.ofNat (acc &&& 0xff) = UInt8.ofNat acc := by
  apply UInt8.toNat_inj.mp
  rw [UInt8.toNat_ofNat', UInt8.toNat_ofNat',
    show acc &&& 0xff = acc % 256 from Nat.and_two_pow_sub_one_eq_mod acc 8]
  omega

theorem drain_eq (acc bits : Nat) :
    drain acc bits = (toLe (bits / 8) acc, acc / 256 ^ (bits / 8), bits % 8) := by
  induction bits using Nat.strongRecOn generalizing acc with
  | ind bits ih =>
    rw [drain]
    by_cases whole : 8 ≤ bits
    · rw [if_pos whole, ih (bits - 8) (by omega), show bits / 8 = (bits - 8) / 8 + 1 by
          omega, toLe, ofNat_and,
        Nat.shiftRight_eq_div_pow, show acc / 2 ^ 8 = acc / 256 from rfl, Nat.pow_succ',
        ← Nat.div_div_eq_div_mul,
        show (bits - 8) % 8 = bits % 8 by omega]
    · rw [if_neg whole, show bits / 8 = 0 by omega, show bits % 8 = bits by omega]
      simp [toLe]

theorem packFrom_eq {width acc bits : Nat} {values : List UInt64} (below : acc < 2 ^ bits)
    (small : bits < 8)
    (fit : ∀ value ∈ values, value.toNat < 2 ^ width) :
    packFrom width values acc bits = toLe ((bits + width * values.length + 7) / 8)
      (acc + 2 ^ bits * streamOf width values) := by
  induction values generalizing acc bits with
  | nil =>
    rw [packFrom]
    by_cases some : 0 < bits
    · rw [if_pos some, List.length_nil, show (bits + width * 0 + 7) / 8 = 1 by omega, ofNat_and]
      simp [streamOf, toLe]
    · obtain rfl : bits = 0 := by omega
      rw [if_neg some, List.length_nil, show (0 + width * 0 + 7) / 8 = 0 by omega]
      rfl
  | cons value values ih =>
    have inside := fit value List.mem_cons_self
    have rest (acc' : Nat) (below' : acc' < 2 ^ ((bits + width) % 8)) :=
      ih below' (Nat.mod_lt _ (by omega)) fun other member => fit other (List.mem_cons_of_mem _ member)
    rw [packFrom, or_shift below, drain_eq]
    simp only
    have total : acc + 2 ^ bits * value.toNat < 2 ^ (bits + width) := by
      rw [Nat.pow_add]
      have := Nat.mul_le_mul_left (2 ^ bits) (show value.toNat + 1 ≤ 2 ^ width from inside)
      rw [Nat.mul_add, Nat.mul_one] at this
      omega
    have whole : 2 ^ (bits + width) = 256 ^ ((bits + width) / 8) * 2 ^ ((bits + width) % 8) := by
      rw [show (256 : Nat) = 2 ^ 8 from rfl, ← Nat.pow_mul, ← Nat.pow_add, Nat.div_add_mod]
    have left : (acc + 2 ^ bits * value.toNat) / 256 ^ ((bits + width) / 8) < 2 ^
        ((bits + width) % 8) :=
      Nat.div_lt_of_lt_mul (whole ▸ total)
    rw [rest _ left, List.length_cons, show bits + width * (values.length + 1) + 7 =
      (bits + width) % 8 + width * values.length + 7 + 8 * ((bits + width) / 8) by
      rw [Nat.mul_add]
      omega,
      Nat.add_mul_div_left _ _ (by omega : 0 < 8), Nat.add_comm (_ / 8) (_ / 8),
      toLe_add, streamOf_cons]
    have split_ : acc + 2 ^ bits * (value.toNat + 2 ^ width * streamOf width values) =
        acc + 2 ^ bits * value.toNat + 256 ^ ((bits + width) / 8) *
          (2 ^ ((bits + width) % 8) * streamOf width values) := by
      rw [← Nat.mul_assoc (256 ^ _), ← whole, Nat.pow_add, Nat.mul_add, Nat.mul_assoc, Nat.add_assoc]
    rw [split_, Nat.add_mul_div_left _ _ (Nat.pow_pos (by decide))]
    congr 1
    exact toLe_congr (by rw [Nat.add_mul_mod_self_left])

theorem packBits_eq {width : Nat} {values : List UInt64}
    (fit : ∀ value ∈ values, value.toNat < 2 ^ width) :
    packBits values width = toLe ((values.length * width + 7) / 8) (streamOf width values) := by
  rw [packBits]
  by_cases none : width = 0
  · subst none
    rw [if_pos rfl, Nat.mul_zero]
    rfl
  · rw [if_neg none, packFrom_eq (by decide) (by decide) fit, Nat.mul_comm width]
    simp

/-! ### Unpacking -/

/-- The inner loop: `got` bits of a value are read, the next one is at `bit`. -/
def unpackOne (stream : Bytes) (width value got bit : Nat) : Result CodecError (Nat × Nat) :=
  if got < width then do
    let byte ← index stream (bit / 8)
    let offset := bit % 8
    let take := min (8 - offset) (width - got)
    let chunk := (byte.toNat >>> offset) &&& (2 ^ take - 1)
    unpackOne stream width (value ||| chunk <<< got) (got + take) (bit + take)
  else .ok (value, bit)
termination_by width - got
decreasing_by omega

def unpackFrom (stream : Bytes) (width : Nat) : Nat → Nat → Result CodecError (List UInt64)
  | 0, _ => .ok []
  | count + 1, bit => do
    let (value, bit) ← unpackOne stream width 0 0 bit
    let values ← unpackFrom stream width count bit
    return UInt64.ofNat value :: values

def unpackBits (count width : Nat) : Reader CodecError (List UInt64) :=
  if width = 0 then pure (List.replicate count 0)
  else if 2 ^ 64 ≤ count * width then lift (refuse .truncated)
  else do
    let stream ← take .truncated ((count * width + 7) / 8)
    lift (unpackFrom stream width count 0)

def bitsAt (number start count : Nat) : Nat := number / 2 ^ start % 2 ^ count

theorem testBit_bitsAt (number start count i : Nat) :
    (bitsAt number start count).testBit i = (decide (i < count) && number.testBit (start + i)) := by
  rw [bitsAt, Nat.testBit_mod_two_pow, Nat.testBit_div_two_pow, Nat.add_comm]

theorem bitsAt_add {number start got take bit : Nat} (here : bit = start + got)
    (inside : bit % 8 + take ≤ 8) :
    bitsAt number start got |||
      ((number / 256 ^ (bit / 8) % 256) >>> (bit % 8) &&& (2 ^ take - 1)) <<< got =
      bitsAt number start (got + take) := by
  apply Nat.eq_of_testBit_eq
  intro i
  rw [Nat.testBit_or, Nat.testBit_shiftLeft, testBit_bitsAt, testBit_bitsAt,
    Nat.and_two_pow_sub_one_eq_mod,
    Nat.testBit_mod_two_pow, Nat.testBit_shiftRight, show (256 : Nat) = 2 ^ 8 from rfl,
    ← Nat.pow_mul, Nat.testBit_mod_two_pow,
    Nat.testBit_div_two_pow]
  by_cases old : i < got
  · rw [decide_eq_true old, decide_eq_true (show i < got + take by omega),
      decide_eq_false (show ¬ i ≥ got by omega)]
    simp
  · rw [decide_eq_false old, decide_eq_true (show i ≥ got by omega)]
    by_cases new : i < got + take
    · rw [decide_eq_true new, decide_eq_true (show i - got < take by omega),
        decide_eq_true (show bit % 8 + (i - got) < 8 by omega),
        show bit % 8 + (i - got) + 8 * (bit / 8) = start + i by omega]
      simp
    · rw [decide_eq_false new, decide_eq_false (show ¬ i - got < take by omega)]
      simp

theorem unpackOne_eq {stream : Bytes} {width start got : Nat} (some : got ≤ width)
    (room : start + width ≤ 8 * stream.length) :
    unpackOne stream width (bitsAt (ofLe stream) start got) got
      (start + got) = .ok (bitsAt (ofLe stream) start width, start + width) := by
  induction left : width - got using Nat.strongRecOn generalizing got with
  | ind left ih =>
    rw [unpackOne]
    by_cases more : got < width
    · have inside : (start + got) / 8 < stream.length := by omega
      rw [if_pos more, index, List.getElem?_eq_getElem inside]
      simp only [bind, Except.bind, getElem_ofLe inside]
      rw [bitsAt_add rfl (by omega), Nat.add_assoc]
      exact ih (width - (got + min (8 - (start + got) % 8) (width - got))) (by omega) (by omega) rfl
    · obtain rfl : got = width := by omega
      rw [if_neg more]

theorem unpackFrom_eq {stream : Bytes} {width count bit : Nat}
    (room : bit + count * width ≤ 8 * stream.length) :
    unpackFrom stream width count bit =
      .ok ((List.range count).map fun i =>
        UInt64.ofNat (bitsAt (ofLe stream) (bit + i * width) width)) := by
  induction count generalizing bit with
  | zero => rfl
  | succ count ih =>
    rw [Nat.add_mul, Nat.one_mul] at room
    have one : unpackOne stream width 0 0 bit = .ok (bitsAt (ofLe stream) bit width, bit + width) := by
      have whole := @unpackOne_eq stream width bit 0 (Nat.zero_le _) (by omega)
      rwa [show bitsAt (ofLe stream) bit 0 = 0 by simp [bitsAt, Nat.mod_one], Nat.add_zero] at whole
    rw [unpackFrom, one]
    simp only [bind, Except.bind, ih (show bit + width + count * width ≤ 8 * stream.length by omega)]
    rw [List.range_succ_eq_map, List.map_cons, List.map_map, Nat.zero_mul, Nat.add_zero]
    congr 2
    apply List.map_congr_left
    intro i _
    simp only [Function.comp_apply, Nat.succ_eq_add_one, Nat.add_mul, Nat.one_mul]
    rw [Nat.add_assoc, Nat.add_comm width]

theorem bitsAt_streamOf {width : Nat} {values : List UInt64}
    (fit : ∀ value ∈ values, value.toNat < 2 ^ width) {i : Nat}
    (inside : i < values.length) : bitsAt (streamOf width values)
      (i * width) width = (values[i]).toNat := by
  induction values generalizing i with
  | nil => simp at inside
  | cons value values ih =>
    have here := fit value List.mem_cons_self
    rw [streamOf_cons, bitsAt]
    cases i with
    | zero =>
        rw [Nat.zero_mul, Nat.pow_zero, Nat.div_one, Nat.add_mul_mod_self_left,
          Nat.mod_eq_of_lt here, List.getElem_cons_zero]
    | succ i =>
      rw [Nat.add_mul, Nat.one_mul, Nat.add_comm (i * width), Nat.pow_add, ← Nat.div_div_eq_div_mul,
        Nat.add_mul_div_left _ _ (Nat.two_pow_pos width), Nat.div_eq_of_lt here, Nat.zero_add]
      exact ih (fun other member => fit other (List.mem_cons_of_mem _ member)) (by simpa using inside)

theorem streamOf_lt {width : Nat} {values : List UInt64}
    (fit : ∀ value ∈ values, value.toNat < 2 ^ width) :
    streamOf width values < 256 ^ ((values.length * width + 7) / 8) := by
  have bound : streamOf width values < 2 ^ (values.length * width) := by
    induction values with
    | nil => simp [streamOf]
    | cons value values ih =>
      have here := fit value List.mem_cons_self
      have rest := ih fun other member => fit other (List.mem_cons_of_mem _ member)
      rw [streamOf_cons, List.length_cons, Nat.add_mul, Nat.one_mul, Nat.pow_add,
        Nat.mul_comm (2 ^ (values.length * width))]
      have := Nat.mul_le_mul_left (2 ^ width) (show streamOf width values + 1 ≤ _ from rest)
      rw [Nat.mul_add, Nat.mul_one] at this
      omega
  refine Nat.lt_of_lt_of_le bound ?_
  rw [show (256 : Nat) = 2 ^ 8 from rfl, ← Nat.pow_mul]
  exact Nat.pow_le_pow_right (by decide) (by omega)

theorem unpackBits_reads {width : Nat} {values : List UInt64}
    (fit : ∀ value ∈ values, value.toNat < 2 ^ width)
    (short : values.length * width < 2 ^ 64) : Reads (unpackBits values.length width)
      (packBits values width) values := by
  rw [unpackBits]
  by_cases none : width = 0
  · subst none
    have zeros : values = List.replicate values.length 0 := by
      refine List.eq_replicate_of_mem fun value member => UInt64.toNat_inj.mp ?_
      have := fit value member
      rw [Nat.pow_zero] at this
      exact Nat.lt_one_iff.mp this
    rw [if_pos rfl, packBits, if_pos rfl, ← zeros]
    exact .pure values
  · rw [if_neg none, if_neg (by omega), packBits_eq fit]
    have bytes := Reads.take CodecError.truncated
      (toLe ((values.length * width + 7) / 8) (streamOf width values))
    rw [toLe_length] at bytes
    have unpacked : unpackFrom (toLe ((values.length * width + 7) / 8) (streamOf width values))
        width values.length 0 = .ok values := by
      rw [unpackFrom_eq (by rw [toLe_length]; omega), ofLe_toLe_of_lt (streamOf_lt fit)]
      congr 1
      refine List.ext_getElem (by simp) fun i inside inside' => ?_
      rw [List.getElem_map, List.getElem_range, Nat.zero_add, bitsAt_streamOf fit inside',
        UInt64.ofNat_toNat]
    exact .congr (bytes.bind (.lift unpacked)) (List.append_nil _) rfl

theorem unpackBits_sound (count width : Nat) : Sound (unpackBits count width) fun values _ =>
      values.length = count := by
  rw [unpackBits]
  by_cases none : width = 0
  · rw [if_pos none]
    exact .pure List.length_replicate
  · rw [if_neg none]
    by_cases long : 2 ^ 64 ≤ count * width
    · rw [if_pos long]
      exact .refuse _
    · rw [if_neg long]
      refine .bind (.take _ _) fun stream used taken => ?_
      have room : 0 + count * width ≤ 8 * stream.length := by
        rw [taken.1, taken.2]
        omega
      rw [unpackFrom_eq room]
      exact .lift nofun fun values same => by
        cases same
        simp

/-! ### Chunks -/

def chunk : Nat := 1024

def encodeChunks {α : Type} (encode : List α → Bytes) (values : List α) : Bytes :=
  if values.length = 0 then [] else encode (values.take chunk) ++ encodeChunks encode
    (values.drop chunk)
termination_by values.length
decreasing_by
  simp only [List.length_drop, chunk]
  omega

theorem encodeChunks_one {α : Type} {encode : List α → Bytes} {values : List α} (some : values ≠ [])
    (part : values.length ≤ chunk) :
    encodeChunks encode values = encode values := by
  rw [encodeChunks, if_neg (by simpa using some), List.take_of_length_le part,
    List.drop_of_length_le part, encodeChunks,
    if_pos List.length_nil, List.append_nil]

def readChunks {α : Type} (read : Nat → Reader CodecError (List α)) (remaining : Nat) :
    Reader CodecError (List α) :=
  if remaining = 0 then pure [] else do
    let first ← read (min remaining chunk)
    let rest ← readChunks read (remaining - min remaining chunk)
    return first ++ rest
termination_by remaining
decreasing_by
  simp only [chunk]
  omega

theorem readChunks_reads {α : Type} {encode : List α → Bytes} {read : Nat → Reader CodecError (List α)}
    (one : ∀ part, part ≠ [] → part.length ≤ chunk → Reads (read part.length) (encode part) part)
    (values : List α) :
    Reads (readChunks read values.length) (encodeChunks encode values) values := by
  induction same : values.length using Nat.strongRecOn generalizing values with
  | ind size ih =>
    rw [readChunks, encodeChunks]
    by_cases none : values = []
    · subst none
      rw [← same]
      exact .pure []
    · have some := List.length_pos_iff.mpr none
      have split_ : (values.take chunk).length = min size chunk := by
        rw [List.length_take, same, Nat.min_comm]
      have here : 0 < (values.take chunk).length := by
        rw [split_]
        simp only [chunk]
        omega
      have first := one (values.take chunk) (List.length_pos_iff.mp here) (List.length_take_le _ _)
      have rest := ih (size - min size chunk) (by simp only [chunk]; omega) (values.drop chunk)
        (by rw [List.length_drop, same]; omega)
      rw [split_] at first
      rw [if_neg (by omega), if_neg (by omega)]
      exact .congr (first.bind (rest.finish _)) rfl (List.take_append_drop chunk values)

theorem readChunks_sound {α : Type} {read : Nat → Reader CodecError (List α)}
    (one : ∀ count, count ≤ chunk → Sound (read count) fun values _ => values.length = count)
    (count : Nat) :
    Sound (readChunks read count) fun values _ => values.length = count := by
  induction count using Nat.strongRecOn with
  | ind count ih =>
    rw [readChunks]
    by_cases none : count = 0
    · rw [if_pos none]
      exact .pure none.symm
    · rw [if_neg none]
      refine .bind (one _ (Nat.min_le_right _ _)) fun first _ length => ?_
      refine .bind (ih _ (by simp only [chunk]; omega)) fun rest _ length' => .pure ?_
      rw [List.length_append, length, length']
      omega

/-! ### Frames of reference -/

def widthOf (value : UInt64) : Nat := if value = 0 then 0 else value.toNat.log2 + 1

theorem lt_widthOf (value : UInt64) : value.toNat < 2 ^ widthOf value := by
  rw [widthOf]
  split
  · next zero =>
    subst zero
    decide
  · exact Nat.lt_log2_self

theorem widthOf_le {value : UInt64} {width : Nat} (fits : value.toNat < 2 ^ width) :
    widthOf value ≤ width := by
  rw [widthOf]
  split
  · omega
  · next some =>
    have positive : value.toNat ≠ 0 := fun zero => some (UInt64.toNat_inj.mp zero)
    exact (Nat.log2_lt positive).mpr fits

def widthOfAll (values : List UInt64) : Nat := widthOf (values.foldr max 0)

theorem le_foldr_max {values : List UInt64} {value : UInt64} (member : value ∈ values) :
    value ≤ values.foldr max 0 := by
  induction values with
  | nil => cases member
  | cons first rest ih =>
    show value ≤ if first ≤ rest.foldr max 0 then rest.foldr max 0 else first
    rcases List.mem_cons.mp member with rfl | member
    · split
      · assumption
      · exact UInt64.le_refl _
    · have := ih member
      split
      · exact this
      · next above => exact UInt64.le_trans this (UInt64.le_of_lt (UInt64.not_le.mp above))

theorem foldr_max_lt {values : List UInt64} {bound : Nat} (some : 0 < bound)
    (small : ∀ value ∈ values, value.toNat < bound) :
    (values.foldr max 0).toNat < bound := by
  induction values with
  | nil => exact some
  | cons first rest ih =>
    show (if first ≤ rest.foldr max 0 then rest.foldr max 0 else first).toNat < bound
    split
    · exact ih fun value member => small value (List.mem_cons_of_mem _ member)
    · exact small first List.mem_cons_self

theorem lt_widthOfAll {values : List UInt64} {value : UInt64} (member : value ∈ values) :
    value.toNat < 2 ^ widthOfAll values :=
  Nat.lt_of_le_of_lt (UInt64.le_iff_toNat_le.mp (le_foldr_max member)) (lt_widthOf _)

/-- A frame's body: the packed offsets, at the width of the widest. -/
def encodeFrame (deltas : List UInt64) : Bytes := UInt8.ofNat (widthOfAll deltas) :: packBits deltas
      (widthOfAll deltas)

def readFrame (wide : Nat) (reason : String) (count : Nat) : Reader CodecError (List UInt64) := do
  let width ← byte .truncated
  if width.toNat > wide then lift (refuse (.invalid reason)) else unpackBits count width.toNat

theorem readFrame_reads {wide : Nat} {deltas : List UInt64} (narrow : widthOfAll deltas ≤ wide)
    (reason : String)
    (part : deltas.length ≤ chunk) : Reads (readFrame wide reason deltas.length)
      (encodeFrame deltas) deltas := by
  have width := widthOf_le (deltas.foldr max 0).toNat_lt
  have same : (UInt8.ofNat (widthOfAll deltas)).toNat = widthOfAll deltas := by
    rw [UInt8.toNat_ofNat', widthOfAll]
    omega
  have first : Reads (byte CodecError.truncated) [UInt8.ofNat (widthOfAll deltas)]
    (UInt8.ofNat (widthOfAll deltas)) := .byte _ _
  have small : deltas.length * widthOfAll deltas < 2 ^ 64 := by
    have := Nat.mul_le_mul part width
    simp only [chunk] at this
    rw [widthOfAll]
    omega
  refine first.bind ?_
  rw [same, if_neg (by omega)]
  exact unpackBits_reads (fun value member => lt_widthOfAll member) small

theorem readFrame_sound (wide : Nat) (reason : String) (count : Nat) :
    Sound (readFrame wide reason count) fun deltas _ => deltas.length = count := by
  refine .bind (.byte _) fun width _ _ => ?_
  split
  · exact .refuse _
  · exact unpackBits_sound _ _

/-! ### The integer codecs -/

def minimum {α : Type} [Min α] (first : α) (rest : List α) : α := rest.foldl min first

def encodeForI64Chunk : List Int64 → Bytes
  | [] => []
  | first :: rest =>
    let base := minimum first rest
    toLe 8 base.toUInt64.toNat ++ encodeFrame ((first :: rest).map fun value => (value - base).toUInt64)

def encodeForI64 (values : List Int64) : Bytes := encodeChunks encodeForI64Chunk values

def readInt64 : Reader CodecError Int64 :=
  (fun value => (UInt64.ofNat value).toInt64) <$> word .truncated 8

def forI64Chunk (count : Nat) : Reader CodecError (List Int64) := do
  let base ← readInt64
  let deltas ← readFrame 64 "FOR bit width over 64" count
  return deltas.map fun delta => base + delta.toInt64

def forI64 (count : Nat) : Reader CodecError (List Int64) := readChunks forI64Chunk count

/-- The capacity it asks for is added by `withCapacity`, as for the other decoders. -/
def decodeForI64 (bytes : Bytes) (count : Nat) : Result CodecError (List Int64) :=
  exactly .trailingBytes (forI64 count) bytes

theorem readInt64_reads (value : Int64) : Reads readInt64 (toLe 8 value.toUInt64.toNat) value := by
  have reads := (Reads.word CodecError.truncated (show _ < 256 ^ 8 from value.toUInt64.toNat_lt)).map
    fun value => (UInt64.ofNat value).toInt64
  rw [UInt64.ofNat_toNat, Int64.toInt64_toUInt64] at reads
  exact reads

theorem readInt64_sound : Sound readInt64 fun _ _ => True :=
  .map ((Sound.word _ _).mono fun _ _ _ => trivial)

theorem forI64Chunk_reads {values : List Int64} (some : values ≠ []) (part : values.length ≤ chunk) :
    Reads (forI64Chunk values.length) (encodeForI64Chunk values) values := by
  obtain ⟨first, rest, rfl⟩ := List.exists_cons_of_ne_nil some
  refine (readInt64_reads (minimum first rest)).bind ?_
  have narrow : widthOfAll
      ((first :: rest).map fun value => (value - minimum first rest).toUInt64) ≤ 64 :=
    widthOf_le (UInt64.toNat_lt _)
  have frame := readFrame_reads narrow "FOR bit width over 64" (by rwa [List.length_map])
  rw [List.length_map] at frame
  refine .congr (frame.finish _) rfl ?_
  rw [List.map_map]
  conv_rhs => rw [← List.map_id (first :: rest)]
  refine List.map_congr_left fun value _ => ?_
  simp only [Function.comp_apply, Int64.toInt64_toUInt64, id]
  grind

theorem forI64_reads (values : List Int64) : Reads (forI64 values.length)
      (encodeForI64 values) values :=
  readChunks_reads (fun _ some part => forI64Chunk_reads some part) values

theorem forI64_sound (count : Nat) : Sound (forI64 count) fun values _ => values.length = count := by
  refine readChunks_sound (fun count _ => ?_) count
  refine .bind readInt64_sound fun base _ _ => ?_
  exact .bind (readFrame_sound _ _ _) fun deltas _ length => .pure (by rw [List.length_map, length])

def encodeForU32Chunk : List UInt32 → Bytes
  | [] => []
  | first :: rest =>
    let base := minimum first rest
    toLe 4 base.toNat ++ encodeFrame ((first :: rest).map fun value => (value - base).toUInt64)

def encodeForU32 (values : List UInt32) : Bytes := encodeChunks encodeForU32Chunk values

def codeAt (base : Nat) (delta : UInt64) : Reader CodecError UInt32 :=
  if base + delta.toNat < 2 ^ 32 then pure (UInt32.ofNat (base + delta.toNat)) else lift
    (refuse (.invalid "FOR u32 overflow"))

def forU32Chunk (count : Nat) : Reader CodecError (List UInt32) := do
  let base ← word .truncated 4
  let deltas ← readFrame 32 "FOR u32 bit width over 32" count
  each (codeAt base) deltas

def forU32 (count : Nat) : Reader CodecError (List UInt32) := readChunks forU32Chunk count

def decodeForU32 (bytes : Bytes) (count : Nat) : Result CodecError (List UInt32) :=
  exactly .trailingBytes (forU32 count) bytes

theorem minimum_le {first value : UInt32} {rest : List UInt32} (member : value ∈ first :: rest) :
    minimum first rest ≤ value := by
  have below (left right : UInt32) : min left right ≤ left ∧ min left right ≤ right := by
    show (if left ≤ right then left else right) ≤ left ∧ (if left ≤ right then left else right) ≤ right
    split
    · next le => exact ⟨UInt32.le_refl _, le⟩
    · next above => exact ⟨UInt32.le_of_lt (UInt32.not_le.mp above), UInt32.le_refl _⟩
  induction rest generalizing first value with
  | nil =>
    obtain rfl := List.mem_singleton.mp member
    exact UInt32.le_refl _
  | cons second rest ih =>
    have here : minimum first (second :: rest) ≤ min first second := ih List.mem_cons_self
    rcases List.mem_cons.mp member with rfl | member
    · exact UInt32.le_trans here (below _ _).1
    · rcases List.mem_cons.mp member with rfl | member
      · exact UInt32.le_trans here (below _ _).2
      · exact ih (List.mem_cons_of_mem _ member)

theorem codeAt_reads {base value : UInt32} (above : base ≤ value) : Reads
      (codeAt base.toNat (value - base).toUInt64) [] value := by
  have le := UInt32.le_iff_toNat_le.mp above
  have sum : base.toNat + (value - base).toUInt64.toNat = value.toNat := by
    rw [UInt32.toNat_toUInt64, UInt32.toNat_sub_of_le _ _ above]
    omega
  rw [codeAt, sum, if_pos value.toNat_lt, UInt32.ofNat_toNat]
  exact .pure value

theorem forU32Chunk_reads {values : List UInt32} (some : values ≠ []) (part : values.length ≤ chunk) :
    Reads (forU32Chunk values.length) (encodeForU32Chunk values) values := by
  obtain ⟨first, rest, rfl⟩ := List.exists_cons_of_ne_nil some
  refine (Reads.word CodecError.truncated (show _ < 256 ^ 4 from (minimum first rest).toNat_lt)).bind ?_
  have narrow : widthOfAll
      ((first :: rest).map fun value => (value - minimum first rest).toUInt64) ≤ 32 := by
    refine widthOf_le ?_
    generalize hd : ((first :: rest).map fun value => (value - minimum first rest).toUInt64) = deltas
    have each (delta : UInt64) (member : delta ∈ deltas) : delta.toNat < 2 ^ 32 := by
      rw [← hd] at member
      obtain ⟨value, -, rfl⟩ := List.mem_map.mp member
      rw [UInt32.toNat_toUInt64]
      exact UInt32.toNat_lt _
    exact foldr_max_lt (by decide) each
  have frame := readFrame_reads narrow "FOR u32 bit width over 32" (by rwa [List.length_map])
  rw [List.length_map] at frame
  have one (value : UInt32) (member : value ∈ first :: rest) :
      Reads (codeAt (minimum first rest).toNat (value - minimum first rest).toUInt64) [] (id value) :=
    codeAt_reads (minimum_le member)
  have codes := Reads.each one
  rw [List.map_id] at codes
  refine .congr (frame.bind codes) ?_ rfl
  simp

theorem forU32_reads (values : List UInt32) : Reads (forU32 values.length)
      (encodeForU32 values) values :=
  readChunks_reads (fun _ some part => forU32Chunk_reads some part) values

theorem forU32_sound (count : Nat) : Sound (forU32 count) fun values _ => values.length = count := by
  refine readChunks_sound (fun count _ => ?_) count
  refine .bind (.word _ _) fun base _ _ => .bind (readFrame_sound _ _ _) fun deltas _ length => ?_
  have one (delta : UInt64) : Sound (codeAt base delta) fun _ _ => True := by
    unfold codeAt
    split
    · exact .pure trivial
    · exact .refuse _
  exact (Sound.each one).mono fun values _ good => good.1.trans length

end TallyDB
