import TallyDB.ArrowLite.Arithmetic
import TallyDB.StorageLite.Packing

/-!
# The floating-point codec

Each chunk is written in one of three modes: as decimal digits, with the values that are no
such decimals beside them; cut into a left part with a dictionary and a right part kept as it
is; or raw. Decoding gives back every bit, whatever the arithmetic does.
-/

namespace TallyDB

open Wire Reader

variable {F : Type} [F64Arith F]

/-! ### Positions that the main stream leaves out -/

def exceptionsFrom {α β : Type} : Nat → List (Option β) → List α → List (Nat × α)
  | position, none :: options, value :: values =>
      (position, value) :: exceptionsFrom (position + 1) options values
  | position, some _ :: options, _ :: values => exceptionsFrom (position + 1) options values
  | _, _, _ => []

theorem exceptionsFrom_bound {α β : Type} {position : Nat} {options : List (Option β)}
    {values : List α} {entry : Nat × α}
    (member : entry ∈ exceptionsFrom position options values) : entry.1 < position + values.length ∧
    entry.2 ∈ values := by
  induction options generalizing position values with
  | nil => cases member
  | cons option options ih =>
    cases values with
    | nil => cases option <;> cases member
    | cons value values =>
      have later (member : entry ∈ exceptionsFrom (position + 1) options values) :
          entry.1 < position + (value :: values).length ∧ entry.2 ∈ value :: values := by
        obtain ⟨bound, inside⟩ := ih member
        rw [List.length_cons]
        exact ⟨by omega, List.mem_cons_of_mem _ inside⟩
      cases option with
      | none =>
        rcases List.mem_cons.mp member with rfl | member
        · exact ⟨by simp, List.mem_cons_self⟩
        · exact later member
      | some _ => exact later member

theorem exceptionsFrom_length {α β : Type} (position : Nat) (options : List (Option β))
    (values : List α) :
    (exceptionsFrom position options values).length ≤ values.length := by
  induction options generalizing position values with
  | nil => exact Nat.zero_le _
  | cons option options ih =>
    cases values with
    | nil => cases option <;> exact Nat.le_refl 0
    | cons value values =>
      have rest := ih (position + 1) values
      cases option with
      | none => exact Nat.succ_le_succ rest
      | some _ => exact Nat.le_succ_of_le rest

/-- Putting the exceptions into place gives the values, if the others are right. -/
theorem foldl_exceptions {α β γ : Type} {fix : Nat → α → γ} {front base target : List γ}
    {options : List (Option β)} {values : List α}
    (options_length : options.length = values.length) (target_length : target.length = values.length)
    (base_length : base.length = values.length)
    (right : ∀ (i : Nat) value, values[i]? = some value →
      target[i]? = some (fix (front.length + i) value))
    (kept : ∀ i : Nat, options[i]? ≠ some none → base[i]? = target[i]?) :
    (exceptionsFrom front.length options values).foldl
    (fun list entry => list.set entry.1 (fix entry.1 entry.2)) (front ++ base) =
      front ++ target := by
  induction options generalizing front base target values with
  | nil =>
    obtain rfl := List.length_eq_zero_iff.mp options_length.symm
    rw [List.length_eq_zero_iff.mp base_length, List.length_eq_zero_iff.mp target_length]
    rfl
  | cons option options ih =>
    obtain ⟨value, values, rfl⟩ := List.exists_cons_of_length_eq_add_one options_length.symm
    obtain ⟨here, base, rfl⟩ := List.exists_cons_of_length_eq_add_one base_length
    obtain ⟨there, target, rfl⟩ := List.exists_cons_of_length_eq_add_one target_length
    have first : there = fix front.length value := by simpa using right 0 value rfl
    have later (i : Nat) (value' : α) (same : values[i]? = some value') :
        target[i]? = some (fix ((front ++ [there]).length + i) value') := by
      have found := right (i + 1) value' (by simpa using same)
      rw [List.length_append, List.length_singleton, show front.length + 1 + i = front.length +
        (i + 1) by omega]
      simpa using found
    have rest := @ih (front ++ [there]) base target values (Nat.succ.inj options_length)
      (Nat.succ.inj target_length)
      (Nat.succ.inj base_length) later fun i other => by simpa using kept (i + 1) (by simpa using other)
    rw [List.length_append, List.length_singleton, List.append_assoc, List.append_assoc] at rest
    cases option with
    | none =>
      rw [exceptionsFrom, List.foldl_cons]
      simp only [List.set_append_right _ _ (Nat.le_refl _), Nat.sub_self, List.set_cons_zero, ← first]
      exact rest
    | some code =>
      have same : here = there := by simpa using kept 0 (by simp)
      rw [exceptionsFrom, same]
      exact rest

/-! ### The decimal mode -/

def pow10 (e : Nat) : F := F64Arith.decimal e

def inv10 (e : Nat) : F := F64Arith.decimal (-e)

/-- Decode of one converted integer, shared by the encoder's check and the decoder. -/
def alpReconstruct (digits : Int64) (e f : Nat) : F :=
  F64Arith.mul (F64Arith.mul (F64Arith.ofInt64 digits) (pow10 f)) (inv10 e)

def alpConvert (e f : Nat) (value : F) : Option Int64 :=
  match F64.exact (F64Arith.mul (F64Arith.mul value (pow10 e)) (inv10 f)) with
  | .finite scaled =>
    if -9000000000000000000 ≤ scaled ∧ scaled ≤ 9000000000000000000 then
      let digits := Int64.ofInt (Exact.roundAway scaled)
      if F64.toBits (alpReconstruct digits e f : F) = F64.toBits value then some digits else none
    else none
  | _ => none

def digitRange : List (Option Int64) → Int64 → Int64 → Nat → Int64 × Int64 × Nat
  | [], low, high, exceptions => (low, high, exceptions)
  | some digit :: digits, low, high, exceptions =>
      digitRange digits (min low digit) (max high digit) exceptions
  | none :: digits, low, high, exceptions => digitRange digits low high (exceptions + 1)

def sampleOf (values : List F) : List F :=
  let step := max (values.length / 32) 1
  (values.zipIdx.filter fun entry => entry.2 % step = 0).map Prod.fst

/-- What a sample would cost: an exception its bits and its position, another value its width. -/
def scoreOf (sample : List F) (e f : Nat) : Nat :=
  let (low, high, exceptions) :=
    digitRange (sample.map (alpConvert e f)) Int64.maxValue Int64.minValue 0
  let width := if low ≤ high then widthOf (high - low).toUInt64 else 64
  exceptions * (64 + 16) + (sample.length - exceptions) * width

def exponentPairs : List (Nat × Nat) :=
  (List.range 19).flatMap fun e => (List.range (e + 1)).map fun f => (e, f)

def betterPair (sample : List F) (best : (Nat × Nat) × Nat) (pair : Nat × Nat) : (Nat × Nat) × Nat :=
  let score := scoreOf sample pair.1 pair.2
  if score < best.2 then (pair, score) else best

def chooseExponents (values : List F) : Nat × Nat :=
  (exponentPairs.foldl (betterPair (sampleOf values)) ((0, 0), 2 ^ 64 - 1)).1

def encodeAlpChunk (values : List F) : Option Bytes :=
  let (e, f) := chooseExponents values
  let digits := values.map (alpConvert e f)
  let (low, high, exceptions) := digitRange digits Int64.maxValue Int64.minValue 0
  if high < low then none else
    let width := widthOf (high - low).toUInt64
    let packed := digits.map fun digit => (digit.getD low - low).toUInt64
    some (0 :: UInt8.ofNat e :: UInt8.ofNat f ::
      (toLe 8 low.toUInt64.toNat ++ UInt8.ofNat width :: (packBits packed width ++
      (toLe 2 exceptions ++ (exceptionsFrom 0 digits values).flatMap fun entry =>
        toLe 2 entry.1 ++ toLe 8 (F64.toBits entry.2).toNat))))

def readAlpException (count : Nat) (values : List F) : Reader CodecError (List F) := do
  let slot ← word .truncated 2
  let bits ← word .truncated 8
  if slot ≥ count then lift (refuse (.invalid "ALP exception past the chunk"))
  else lift (setAt values slot (F64.ofBits (UInt64.ofNat bits)))

def decodeAlpChunk (count : Nat) : Reader CodecError (List F) := do
  let e ← byte .truncated
  let f ← byte .truncated
  if e.toNat ≥ 19 ∨ f > e then lift (refuse (.invalid "ALP exponents out of range")) else
    let base ← readInt64
    let width ← byte .truncated
    if width.toNat > 64 then lift (refuse (.invalid "ALP bit width over 64")) else
      let packed ← unpackBits count width.toNat
      let exceptions ← word .truncated 2
      change (readAlpException count) exceptions
        (packed.map fun delta => alpReconstruct (base + delta.toInt64) e.toNat f.toNat)

theorem toNat_sub {low value : Int64} (above : low ≤ value) : ((value - low).toUInt64.toNat : Int) =
      value.toInt - low.toInt := by
  have le := Int64.le_iff_toInt_le.mp above
  have least := low.le_toInt
  have greatest := value.toInt_lt
  have whole : ((value - low).toUInt64.toNat : Int) = (value.toInt - low.toInt) % 2 ^ 64 := by
    show ((value.toBitVec - low.toBitVec).toNat : Int) =
      (value.toBitVec.toInt - low.toBitVec.toInt) % 2 ^ 64
    have := value.toBitVec.isLt
    have := low.toBitVec.isLt
    rw [BitVec.toNat_sub, BitVec.toInt_eq_toNat_cond, BitVec.toInt_eq_toNat_cond]
    split <;> split <;> omega
  omega

omit [F64Arith F] in
theorem digitRange_spec {values : List F} (position : Nat) (digits : List (Option Int64))
    (low high : Int64) (exceptions : Nat)
    (same : digits.length = values.length) :
    (digitRange digits low high exceptions).1 ≤ low ∧
    high ≤ (digitRange digits low high exceptions).2.1 ∧
      (∀ digit, some digit ∈ digits → (digitRange digits low high exceptions).1 ≤ digit ∧
        digit ≤ (digitRange digits low high exceptions).2.1) ∧
      (digitRange digits low high exceptions).2.2 = exceptions +
      (exceptionsFrom position digits values).length := by
  induction digits generalizing position values low high exceptions with
  | nil => exact ⟨Int64.le_refl _, Int64.le_refl _, nofun, rfl⟩
  | cons option digits ih =>
    obtain ⟨value, values, rfl⟩ := List.exists_cons_of_length_eq_add_one same.symm
    have rest (low high : Int64) (exceptions : Nat) :=
      @ih values (position + 1) low high exceptions (Nat.succ.inj same)
    cases option with
    | none =>
      obtain ⟨below, above, inside, count⟩ := rest low high (exceptions + 1)
      refine ⟨below, above, fun digit member => ?_, ?_⟩
      · rcases List.mem_cons.mp member with impossible | member
        · cases impossible
        · exact inside digit member
      · rw [digitRange, count, exceptionsFrom, List.length_cons]
        omega
    | some first =>
      have minimum : min low first ≤ low ∧ min low first ≤ first := by
        show (if low ≤ first then low else first) ≤ low ∧ (if low ≤ first then low else first) ≤ first
        split
        · next le => exact ⟨Int64.le_refl _, le⟩
        · next above => exact ⟨Int64.le_of_lt (Int64.not_le.mp above), Int64.le_refl _⟩
      have maximum : high ≤ max high first ∧ first ≤ max high first := by
        show high ≤ (if high ≤ first then first else high) ∧
          first ≤ if high ≤ first then first else high
        split
        · next le => exact ⟨le, Int64.le_refl _⟩
        · next above => exact ⟨Int64.le_refl _, Int64.le_of_lt (Int64.not_le.mp above)⟩
      obtain ⟨below, above, inside, count⟩ := rest (min low first) (max high first) exceptions
      refine ⟨Int64.le_trans below minimum.1, Int64.le_trans maximum.1 above,
        fun digit member => ?_, count⟩
      rcases List.mem_cons.mp member with here | member
      · obtain rfl := Option.some.inj here
        exact ⟨Int64.le_trans below minimum.2, Int64.le_trans maximum.2 above⟩
      · exact inside digit member

theorem foldl_betterPair_bound {sample : List F} {pairs : List (Nat × Nat)}
    (all : ∀ pair ∈ pairs, pair.1 < 19 ∧ pair.2 ≤ pair.1)
    {best : (Nat × Nat) × Nat} (good : best.1.1 < 19 ∧ best.1.2 ≤ best.1.1) :
    (pairs.foldl (betterPair sample) best).1.1 < 19 ∧
      (pairs.foldl (betterPair sample) best).1.2 ≤ (pairs.foldl (betterPair sample) best).1.1 := by
  induction pairs generalizing best with
  | nil => exact good
  | cons pair pairs ih =>
    refine ih (fun other member => all other (List.mem_cons_of_mem _ member)) ?_
    unfold betterPair
    by_cases better : scoreOf sample pair.1 pair.2 < best.2
    · simp only [if_pos better]
      exact all pair List.mem_cons_self
    · simp only [if_neg better]
      exact good

theorem chooseExponents_bound (values : List F) : (chooseExponents values).1 < 19 ∧
    (chooseExponents values).2 ≤ (chooseExponents values).1 := by
  have all (pair : Nat × Nat) (member : pair ∈ exponentPairs) : pair.1 < 19 ∧ pair.2 ≤ pair.1 := by
    obtain ⟨e, inside, found⟩ := List.mem_flatMap.mp member
    obtain ⟨f, inside', rfl⟩ := List.mem_map.mp found
    rw [List.mem_range] at inside inside'
    exact ⟨inside, by omega⟩
  rw [chooseExponents]
  generalize 2 ^ 64 - 1 = start
  exact foldl_betterPair_bound all ⟨Nat.succ_pos 18, Nat.le_refl 0⟩

theorem alpReconstruct_alpConvert [LawfulBits F] {e f : Nat} {value : F} {digits : Int64}
    (converts : alpConvert e f value = some digits) :
    alpReconstruct digits e f = value := by
  unfold alpConvert at converts
  split at converts
  · split at converts
    · dsimp only at converts
      split at converts
      · next same =>
        obtain rfl := Option.some.inj converts
        have back := congrArg (F64.ofBits (F := F)) same
        rwa [LawfulBits.ofBits_toBits, LawfulBits.ofBits_toBits] at back
      · cases converts
    · cases converts
  · cases converts

theorem readAlpException_reads [LawfulBits F] {count slot : Nat} {value : F} {values : List F}
    (length : values.length = count)
    (inside : slot < count) (small : count ≤ chunk) :
    Reads (readAlpException count values) (toLe 2 slot ++ toLe 8 (F64.toBits value).toNat)
      (values.set slot value) := by
  have position : slot < 256 ^ 2 := by
    simp only [chunk] at small
    omega
  refine (Reads.word _ position).bind ?_
  rw [← List.append_nil (toLe 8 _)]
  refine (Reads.word _ (show _ < 256 ^ 8 from (F64.toBits value).toNat_lt)).bind ?_
  rw [if_neg (by omega), UInt64.ofNat_toNat, LawfulBits.ofBits_toBits]
  exact .lift (if_pos (by omega))

theorem readAlpException_sound {count : Nat} {values : List F} (length : values.length = count) :
    Sound (readAlpException count values) fun result _ => result.length = count := by
  refine .bind (.word _ _) fun slot _ _ => .bind (.word _ _) fun bits _ _ => ?_
  split
  · exact .refuse _
  · next inside =>
    rw [setAt, if_pos (by omega)]
    exact .pure (by rw [List.length_set, length])

theorem packedDigits_fit {digits : List (Option Int64)} {low high : Int64} (ordered : low ≤ high)
    (inside : ∀ digit, some digit ∈ digits → low ≤ digit ∧ digit ≤ high) {delta : UInt64}
    (member : delta ∈ digits.map fun digit => (digit.getD low - low).toUInt64) :
    delta.toNat < 2 ^ widthOf (high - low).toUInt64 := by
  obtain ⟨digit, found, rfl⟩ := List.mem_map.mp member
  have top := lt_widthOf (high - low).toUInt64
  have bound : low ≤ digit.getD low ∧ digit.getD low ≤ high := by
    cases digit with
    | none => exact ⟨Int64.le_refl _, ordered⟩
    | some digit => exact inside digit found
  have left := toNat_sub bound.1
  have right := toNat_sub ordered
  have le := Int64.le_iff_toInt_le.mp bound.2
  omega

/-- The exceptions put the values back that the digits do not give. -/
theorem alpExceptions_reads [LawfulBits F] {digits : List (Option Int64)} {values base : List F}
    (part : values.length ≤ chunk)
    (digits_length : digits.length = values.length) (base_length : base.length = values.length)
    (kept : ∀ i : Nat, digits[i]? ≠ some none → base[i]? = values[i]?) :
    Reads (change (readAlpException values.length) (exceptionsFrom 0 digits values).length base)
      ((exceptionsFrom 0 digits values).flatMap fun entry =>
        toLe 2 entry.1 ++ toLe 8 (F64.toBits entry.2).toNat) values := by
  have one (list : List F) (length : list.length = values.length) (entry : Nat × F)
    (member : entry ∈ exceptionsFrom 0 digits values) :
      Reads (readAlpException values.length list)
        (toLe 2 entry.1 ++ toLe 8 (F64.toBits entry.2).toNat) (list.set entry.1 entry.2) := by
    obtain ⟨below, -⟩ := exceptionsFrom_bound member
    exact readAlpException_reads length (by omega) part
  have patched := @Reads.change _ _ _ _
    (fun entry : Nat × F => toLe 2 entry.1 ++ toLe 8 (F64.toBits entry.2).toNat)
    (fun list entry => list.set entry.1 entry.2) (fun list => list.length = values.length) _ one
    (fun list length entry => by rw [List.length_set, length]) base base_length
  refine patched.congr rfl ?_
  exact @foldl_exceptions _ _ _ (fun _ value => value) [] base values _ _ digits_length rfl
    base_length (fun _ _ same => same) kept

/-- A chunk in decimal mode decodes to its values. -/
theorem decodeAlpChunk_reads [LawfulBits F] {values : List F} (part : values.length ≤ chunk)
    {bytes : Bytes}
    (encoded : encodeAlpChunk values = some bytes) :
    ∃ body, bytes = 0 :: body ∧ Reads (decodeAlpChunk values.length) body values := by
  unfold encodeAlpChunk at encoded
  have exponents := chooseExponents_bound values
  generalize chooseExponents values = pair at encoded exponents
  obtain ⟨e, f⟩ := pair
  dsimp only at encoded exponents
  have lengths : (values.map (alpConvert e f)).length = values.length := List.length_map _
  have range := digitRange_spec 0 (values.map (alpConvert e f)) Int64.maxValue Int64.minValue 0 lengths
  generalize digitRange (values.map (alpConvert e f)) Int64.maxValue Int64.minValue 0 =
    triple at encoded range
  obtain ⟨low, high, exceptions⟩ := triple
  dsimp only at encoded range
  obtain ⟨-, -, inside, count⟩ := range
  rw [Nat.zero_add] at count
  split at encoded
  · cases encoded
  · next above =>
    have ordered := Int64.not_lt.mp above
    refine ⟨_, (Option.some.inj encoded).symm, ?_⟩
    have wide := widthOf_le (high - low).toUInt64.toNat_lt
    have few := exceptionsFrom_length 0 (values.map (alpConvert e f)) values
    have ofByte (value : Nat) (small : value < 256) : (UInt8.ofNat value).toNat = value := by
      rw [UInt8.toNat_ofNat']
      omega
    have first : Reads (byte CodecError.truncated) [UInt8.ofNat e] (UInt8.ofNat e) := .byte _ _
    have second : Reads (byte CodecError.truncated) [UInt8.ofNat f] (UInt8.ofNat f) := .byte _ _
    have third : Reads (byte CodecError.truncated)
      [UInt8.ofNat (widthOf (high - low).toUInt64)] _ := .byte _ _
    have valid : ¬((UInt8.ofNat e).toNat ≥ 19 ∨ UInt8.ofNat f > UInt8.ofNat e) := by
      rw [gt_iff_lt, UInt8.lt_iff_toNat_lt, ofByte e (by omega), ofByte f (by omega)]
      omega
    refine first.bind (second.bind ?_)
    rw [if_neg valid, ofByte e (by omega), ofByte f (by omega)]
    refine (readInt64_reads low).bind (third.bind ?_)
    rw [ofByte _ (by omega), if_neg (by omega)]
    have packed := unpackBits_reads (fun delta member => packedDigits_fit ordered inside member) (by
      have := Nat.mul_le_mul part wide
      rw [List.length_map, lengths]
      simp only [chunk] at this
      omega)
    rw [List.length_map, lengths] at packed
    refine packed.bind ((Reads.word _ (by simp only [chunk] at part; omega)).bind ?_)
    rw [count]
    refine alpExceptions_reads part lengths (by simp) fun i other => ?_
    rw [List.getElem?_map, List.getElem?_map, List.getElem?_map] at *
    cases found : values[i]? with
    | none => rfl
    | some value =>
      rw [found] at other
      cases converts : alpConvert e f value with
      | none => exact absurd (congrArg some converts) other
      | some digit =>
        simp only [Option.map_some, converts, Option.getD_some, Int64.toInt64_toUInt64]
        rw [show low + (digit - low) = digit by grind, alpReconstruct_alpConvert converts]

theorem decodeAlpChunk_sound (count : Nat) : Sound (decodeAlpChunk (F := F) count) fun values _ =>
      values.length = count := by
  refine .bind (.byte _) fun e _ _ => .bind (.byte _) fun f _ _ => ?_
  split
  · exact .refuse _
  · refine .bind readInt64_sound fun base _ _ => .bind (.byte _) fun width _ _ => ?_
    split
    · exact .refuse _
    · refine .bind (unpackBits_sound _ _) fun packed _ length =>
        .bind (.word _ _) fun exceptions _ _ => ?_
      exact .change (fun values length => readAlpException_sound length) exceptions
        (by rw [List.length_map, length])

end TallyDB
