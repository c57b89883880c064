import TallyDB.StorageLite.Alp

/-!
# Real doubles, and the choice of a mode

The cut mode keeps a double's right part and looks its left part up in a dictionary of the
chunk's most frequent ones. `decode_encodeAlpF64` covers the whole column codec.
-/

namespace TallyDB

open Wire Reader

/-! ### Cutting a chunk -/

def leftOf (shift : Nat) (bits : UInt64) : Nat := (bits.toNat >>> shift) % 2 ^ 16

def rightOf (width : Nat) (bits : UInt64) : UInt64 :=
  if width = 64 then bits else UInt64.ofNat (bits.toNat &&& (2 ^ width - 1))

def joinParts (left shift : Nat) (right : UInt64) : UInt64 :=
  UInt64.ofNat (left <<< shift % 2 ^ 64 ||| right.toNat)

def runsOf : List Nat → List (Nat × Nat)
  | [] => []
  | left :: lefts =>
    match runsOf lefts with
    | (current, count) :: runs =>
        if current = left then (current, count + 1) :: runs else (left, 1) :: (current, count) :: runs
    | [] => [(left, 1)]

/-- The most frequent left parts first, the smaller of two as frequent. -/
def runsByCount (lefts : List Nat) : List (Nat × Nat) :=
  (runsOf (lefts.mergeSort (· ≤ ·))).mergeSort fun a b => b.2 < a.2 || (a.2 = b.2 && a.1 ≤ b.1)

/-- The dictionary of one cut and the size its chunk would have. -/
def cutOf (values : List UInt64) (leftWidth : Nat) : List Nat × Nat :=
  let runs := (runsByCount (values.map (leftOf (64 - leftWidth)))).take 8
  let dict := runs.map Prod.fst
  let exceptions := values.length - (runs.map Prod.snd).sum
  (dict, (values.length * 3 + 7) / 8 + (values.length * (64 - leftWidth) + 7) / 8 + dict.length *
    2 + exceptions * 4)

def betterCut (values : List UInt64) (best : Nat × List Nat × Nat) (leftWidth : Nat) :
    Nat × List Nat × Nat :=
  let (dict, size) := cutOf values leftWidth
  if size < best.2.2 then (leftWidth, dict, size) else best

def chooseCut (values : List UInt64) : Nat × List Nat :=
  let best := (List.range' 1 16).foldl (betterCut values) (1, [], 2 ^ 64 - 1)
  (best.1, best.2.1)

/-! ### The mode's bytes -/

def codeOf (dict : List Nat) (left : Nat) : Option Nat :=
  if left ∈ dict then some (dict.idxOf left) else none

def encodeRdChunk (values : List UInt64) : Bytes :=
  let (leftWidth, dict) := chooseCut values
  let shift := 64 - leftWidth
  let lefts := values.map (leftOf shift)
  let codes := lefts.map (codeOf dict)
  let exceptions := exceptionsFrom 0 codes lefts
  1 :: UInt8.ofNat leftWidth :: UInt8.ofNat dict.length :: (dict.flatMap (toLe 2) ++
    (packBits (codes.map fun code => UInt64.ofNat (code.getD 0)) 3 ++
    (packBits (values.map (rightOf shift)) shift ++
      (toLe 2 exceptions.length ++ exceptions.flatMap fun entry => toLe 2 entry.1 ++ toLe 2 entry.2))))

def readRdValue (dict : List Nat) (shift : Nat) (parts : UInt64 × UInt64) : Reader CodecError UInt64 :=
  match dict[parts.1.toNat]? with
  | some left => pure (joinParts left shift parts.2)
  | none => lift (refuse (.invalid "RD code past its dictionary"))

def readRdException (count shift : Nat) (rights : List UInt64) (values : List UInt64) :
    Reader CodecError (List UInt64) := do
  let slot ← word .truncated 2
  let left ← word .truncated 2
  if slot ≥ count then lift (refuse (.invalid "RD exception past the chunk")) else
    let right ← lift (index rights slot)
    lift (setAt values slot (joinParts left shift right))

def decodeRdChunk (count : Nat) : Reader CodecError (List UInt64) := do
  let leftWidth ← byte .truncated
  if leftWidth.toNat = 0 ∨
    leftWidth.toNat > 16 then lift (refuse (.invalid "RD left width out of range")) else
    let dictLen ← byte .truncated
    if dictLen.toNat = 0 ∨
      dictLen.toNat > 8 then lift (refuse (.invalid "RD dictionary size out of range")) else
      let dict ← times (word .truncated 2) dictLen.toNat
      let codes ← unpackBits count 3
      let rights ← unpackBits count (64 - leftWidth.toNat)
      let values ← each (readRdValue dict (64 - leftWidth.toNat)) (codes.zip rights)
      let exceptions ← word .truncated 2
      change (readRdException count (64 - leftWidth.toNat) rights) exceptions values

/-! ### A cut keeps every bit -/

theorem joinParts_cut {shift : Nat} (bits : UInt64) (wide : 48 ≤ shift) (narrow : shift < 64) :
    joinParts (leftOf shift bits) shift (rightOf shift bits) = bits := by
  apply UInt64.toNat_inj.mp
  have word := bits.toNat_lt
  have left : bits.toNat / 2 ^ shift < 2 ^ 16 := by
    refine Nat.div_lt_of_lt_mul (Nat.lt_of_lt_of_le word ?_)
    rw [← Nat.pow_add]
    exact Nat.pow_le_pow_right (by decide) (by omega)
  have whole := Nat.div_add_mod bits.toNat (2 ^ shift)
  have low := Nat.mod_lt bits.toNat (Nat.two_pow_pos shift)
  have right : (rightOf shift bits).toNat = bits.toNat % 2 ^ shift := by
    rw [rightOf, if_neg (by omega), Nat.and_two_pow_sub_one_eq_mod, UInt64.toNat_ofNat']
    exact Nat.mod_eq_of_lt (by omega)
  rw [joinParts, leftOf, right, Nat.shiftRight_eq_div_pow, Nat.mod_eq_of_lt left,
    Nat.shiftLeft_eq, Nat.mul_comm,
    Nat.mod_eq_of_lt (by omega : 2 ^ shift * (bits.toNat / 2 ^ shift) < 2 ^ 64),
    ← Nat.two_pow_add_eq_or_of_lt low, whole,
    UInt64.ofNat_toNat]

theorem rightOf_lt {shift : Nat} (bits : UInt64) (narrow : shift < 64) :
    (rightOf shift bits).toNat < 2 ^ shift := by
  rw [rightOf, if_neg (by omega), Nat.and_two_pow_sub_one_eq_mod, UInt64.toNat_ofNat']
  exact Nat.lt_of_le_of_lt (Nat.mod_le _ _) (Nat.mod_lt _ (Nat.two_pow_pos shift))

theorem runsOf_fst {lefts : List Nat} {run : Nat × Nat} (member : run ∈ runsOf lefts) :
    run.1 ∈ lefts := by
  induction lefts generalizing run with
  | nil => cases member
  | cons left lefts ih =>
    rw [runsOf] at member
    split at member
    · next current count runs same =>
      split at member
      · next equal =>
        subst equal
        rcases List.mem_cons.mp member with rfl | member
        · exact List.mem_cons_self
        · exact List.mem_cons_of_mem _ (ih (same ▸ List.mem_cons_of_mem _ member))
      · rcases List.mem_cons.mp member with rfl | member
        · exact List.mem_cons_self
        · exact List.mem_cons_of_mem _ (ih (same ▸ member))
    · obtain rfl := List.mem_singleton.mp member
      exact List.mem_cons_self

theorem runsOf_ne_nil {lefts : List Nat} (some : lefts ≠ []) : runsOf lefts ≠ [] := by
  obtain ⟨left, lefts, rfl⟩ := List.exists_cons_of_ne_nil some
  rw [runsOf]
  split
  · split <;> simp
  · simp

/-- What a dictionary of left parts is good for. -/
def CutOk (cut : Nat × List Nat) : Prop :=
  1 ≤ cut.1 ∧ cut.1 ≤ 16 ∧ cut.2 ≠ [] ∧ cut.2.length ≤ 8 ∧ ∀ left ∈ cut.2, left < 2 ^ 16

theorem cutOf_ok {values : List UInt64} (some : values ≠ []) {leftWidth : Nat} (low : 1 ≤ leftWidth)
    (high : leftWidth ≤ 16) :
    CutOk (leftWidth, (cutOf values leftWidth).1) := by
  have parts : (cutOf values leftWidth).1 =
      ((runsByCount (values.map (leftOf (64 - leftWidth)))).take 8).map Prod.fst := rfl
  have filled : runsByCount (values.map (leftOf (64 - leftWidth))) ≠ [] := by
    rw [runsByCount, Ne, ← List.length_eq_zero_iff, List.length_mergeSort, List.length_eq_zero_iff]
    refine runsOf_ne_nil ?_
    rw [Ne, ← List.length_eq_zero_iff, List.length_mergeSort, List.length_map, List.length_eq_zero_iff]
    exact some
  refine ⟨low, high, ?_, ?_, fun left member => ?_⟩
  · rw [parts, Ne, List.map_eq_nil_iff, List.take_eq_nil_iff]
    simp [filled]
  · rw [parts, List.length_map]
    exact List.length_take_le _ _
  · rw [parts] at member
    obtain ⟨run, found, rfl⟩ := List.mem_map.mp member
    have inside := runsOf_fst (List.mem_mergeSort.mp (List.mem_of_mem_take found))
    obtain ⟨bits, -, same⟩ := List.mem_map.mp (List.mem_mergeSort.mp inside)
    rw [← same]
    exact Nat.mod_lt _ (by decide)

theorem cutOf_small {values : List UInt64} (part : values.length ≤ chunk) (leftWidth : Nat) :
    (cutOf values leftWidth).2 < 2 ^ 64 - 1 := by
  have dict : (((runsByCount (values.map (leftOf (64 - leftWidth)))).take 8).map Prod.fst).length ≤
      8 := by
    rw [List.length_map]
    exact List.length_take_le _ _
  have width := Nat.mul_le_mul part (show 64 - leftWidth ≤ 64 by omega)
  simp only [chunk] at part width
  simp only [cutOf]
  omega

theorem betterCut_ok {values : List UInt64} (some : values ≠ []) {best : Nat × List Nat × Nat}
    {leftWidth : Nat}
    (low : 1 ≤ leftWidth) (high : leftWidth ≤ 16)
    (good : CutOk (best.1, best.2.1) ∨ (cutOf values leftWidth).2 < best.2.2) :
    CutOk ((betterCut values best leftWidth).1, (betterCut values best leftWidth).2.1) := by
  unfold betterCut
  by_cases better : (cutOf values leftWidth).2 < best.2.2
  · simp only [if_pos better]
    exact cutOf_ok some low high
  · simp only [if_neg better]
    exact good.resolve_right better

theorem foldl_betterCut_ok {values : List UInt64} (some : values ≠ []) {widths : List Nat}
    (all : ∀ width ∈ widths, 1 ≤ width ∧ width ≤ 16)
    {best : Nat × List Nat × Nat} (good : CutOk (best.1, best.2.1)) :
    CutOk ((widths.foldl (betterCut values) best).1, (widths.foldl (betterCut values) best).2.1) := by
  induction widths generalizing best with
  | nil => exact good
  | cons width widths ih =>
    have range := all width List.mem_cons_self
    exact ih (fun other member => all other (List.mem_cons_of_mem _ member))
      (betterCut_ok some range.1 range.2 (.inl good))

theorem chooseCut_ok {values : List UInt64} (some : values ≠ []) (part : values.length ≤ chunk) :
    CutOk (chooseCut values) := by
  have rest (width : Nat) (member : width ∈ List.range' 2 15) : 1 ≤ width ∧ width ≤ 16 := by
    rw [List.mem_range'_1] at member
    omega
  have first := cutOf_small part 1
  rw [chooseCut, show List.range' 1 16 = 1 :: List.range' 2 15 from rfl, List.foldl_cons]
  generalize 2 ^ 64 - 1 = start at first
  exact foldl_betterCut_ok some rest (betterCut_ok some (Nat.le_refl 1) (by decide) (.inr first))

/-! ### The mode's round trip -/

theorem readRdException_reads {count shift slot left : Nat} {rights values : List UInt64}
    (length : values.length = count)
    (rights_length : rights.length = count) (inside : slot < count) (small : count ≤ chunk)
    (word_ : left < 2 ^ 16) :
    Reads (readRdException count shift rights values) (toLe 2 slot ++ toLe 2 left)
      (values.set slot (joinParts left shift (rights.getD slot 0))) := by
  have position : slot < 256 ^ 2 := by
    simp only [chunk] at small
    omega
  have there : slot < rights.length := by omega
  have right : rights.getD slot 0 = rights[slot] := by
    rw [List.getD_eq_getElem?_getD, List.getElem?_eq_getElem there, Option.getD_some]
  refine (Reads.word _ position).bind ?_
  rw [← List.append_nil (toLe 2 left)]
  refine (Reads.word _ (show left < 256 ^ 2 from word_)).bind ?_
  rw [if_neg (by omega), right]
  have found : Reads (lift (index rights slot) : Reader CodecError UInt64) [] rights[slot] :=
    .lift (by rw [index, List.getElem?_eq_getElem there])
  exact found.bind (.lift (if_pos (by omega)))

theorem readRdException_sound {count shift : Nat} {rights values : List UInt64}
    (length : values.length = count)
    (rights_length : rights.length = count) :
    Sound (readRdException count shift rights values) fun result _ => result.length = count := by
  refine .bind (.word _ _) fun slot _ _ => .bind (.word _ _) fun left _ _ => ?_
  split
  · exact .refuse _
  · next inside =>
    rw [index, List.getElem?_eq_getElem (by omega)]
    refine .bind (.pure trivial : Sound (Pure.pure _) fun _ _ => True) fun right _ _ => ?_
    rw [setAt, if_pos (by omega)]
    exact .pure (by rw [List.length_set, length])

/-- The exceptions put the left parts back that the dictionary lacks. -/
theorem rdExceptions_reads {dict : List Nat} {shift : Nat} {values base : List UInt64}
    (wide : 48 ≤ shift) (narrow : shift < 64)
    (part : values.length ≤ chunk) (base_length : base.length = values.length)
    (kept : ∀ i : Nat, ((values.map (leftOf shift)).map (codeOf dict))[i]? ≠ some none →
      base[i]? = values[i]?) :
    let lefts := values.map (leftOf shift)
    let exceptions := exceptionsFrom 0 (lefts.map (codeOf dict)) lefts
    Reads (change (readRdException values.length shift (values.map (rightOf shift)))
      exceptions.length base)
      (exceptions.flatMap fun entry => toLe 2 entry.1 ++ toLe 2 entry.2) values := by
  intro lefts exceptions
  have lefts_length : lefts.length = values.length := List.length_map _
  have one (list : List UInt64) (length : list.length = values.length) (entry : Nat × Nat)
    (member : entry ∈ exceptions) :
      Reads (readRdException values.length shift (values.map (rightOf shift)) list)
        (toLe 2 entry.1 ++ toLe 2 entry.2)
        (list.set entry.1 (joinParts entry.2 shift ((values.map (rightOf shift)).getD entry.1 0))) := by
    obtain ⟨below, inside⟩ := exceptionsFrom_bound member
    obtain ⟨bits, -, same⟩ := List.mem_map.mp inside
    exact readRdException_reads length (List.length_map _) (by omega) part
      (same ▸ Nat.mod_lt _ (by decide))
  have patched := @Reads.change _ _ _ _ (fun entry : Nat × Nat => toLe 2 entry.1 ++ toLe 2 entry.2)
    (fun list entry =>
      list.set entry.1 (joinParts entry.2 shift ((values.map (rightOf shift)).getD entry.1 0)))
    (fun list => list.length = values.length) _ one (fun list length entry => by
        rw [List.length_set, length]) base base_length
  refine patched.congr rfl ?_
  refine @foldl_exceptions _ _ _
    (fun i left => joinParts left shift ((values.map (rightOf shift)).getD i 0)) [] base values _ _
    (List.length_map _) lefts_length.symm (base_length.trans lefts_length.symm)
      (fun i left same => ?_) kept
  rw [List.getElem?_map] at same
  cases found : values[i]? with
  | none => rw [found] at same; cases same
  | some bits =>
    rw [found] at same
    rw [List.length_nil, Nat.zero_add, List.getD_eq_getElem?_getD, List.getElem?_map, found,
      Option.map_some, Option.getD_some,
      ← Option.some.inj same, joinParts_cut bits wide narrow]

/-- A code is a position of the dictionary; a value without one has the first. -/
theorem codeOf_lt {dict : List Nat} (filled : dict ≠ []) (left : Nat) :
    (codeOf dict left).getD 0 < dict.length := by
  unfold codeOf
  split
  · next member => exact List.idxOf_lt_length_of_mem member
  · exact List.length_pos_iff.mpr filled

theorem codeOf_toNat {dict : List Nat} (filled : dict ≠ []) (short : dict.length ≤ 8) (left : Nat) :
    (UInt64.ofNat ((codeOf dict left).getD 0)).toNat = (codeOf dict left).getD 0 := by
  have := codeOf_lt filled left
  rw [UInt64.toNat_ofNat', Nat.mod_eq_of_lt (by omega)]

theorem rdValues_reads {dict : List Nat} {shift : Nat} {values : List UInt64} (filled : dict ≠ [])
    (short : dict.length ≤ 8) :
    Reads (each (readRdValue dict shift)
      ((((values.map (leftOf shift)).map (codeOf dict)).map fun code =>
      UInt64.ofNat (code.getD 0)).zip (values.map (rightOf shift)))) []
      (values.map fun bits => joinParts (dict.getD ((codeOf dict (leftOf shift bits)).getD 0) 0)
        shift (rightOf shift bits)) := by
  have one (bits : UInt64) (_ : bits ∈ values) :
      Reads (readRdValue dict shift (UInt64.ofNat ((codeOf dict (leftOf shift bits)).getD 0),
        rightOf shift bits)) []
        (joinParts (dict.getD ((codeOf dict (leftOf shift bits)).getD 0) 0) shift
          (rightOf shift bits)) := by
    have inside := codeOf_lt filled (leftOf shift bits)
    rw [readRdValue, codeOf_toNat filled short, List.getD_eq_getElem?_getD,
      List.getElem?_eq_getElem inside]
    exact .pure _
  have all := Reads.each one
  rw [List.map_map, List.map_map, List.zip_map']
  refine all.congr ?_ rfl
  simp

theorem decodeRdChunk_reads {values : List UInt64} (some : values ≠ []) (part : values.length ≤ chunk) :
    ∃ body, encodeRdChunk values = 1 :: body ∧ Reads (decodeRdChunk values.length) body values := by
  unfold encodeRdChunk
  have cut := chooseCut_ok some part
  generalize chooseCut values = pair at cut
  obtain ⟨leftWidth, dict⟩ := pair
  obtain ⟨low, high, filled, short, words⟩ := cut
  dsimp only at low high filled short words
  refine ⟨_, rfl, ?_⟩
  have ofByte (value : Nat) (small : value < 256) : (UInt8.ofNat value).toNat = value := by
    rw [UInt8.toNat_ofNat']
    omega
  have length := List.length_pos_iff.mpr filled
  have bits := Nat.mul_le_mul part (show 64 - leftWidth ≤ 64 by omega)
  simp only [chunk] at bits
  have few := exceptionsFrom_length 0 ((values.map (leftOf (64 - leftWidth))).map (codeOf dict))
    (values.map (leftOf (64 - leftWidth)))
  rw [List.length_map] at few
  have first : Reads (byte CodecError.truncated) [UInt8.ofNat leftWidth] (UInt8.ofNat leftWidth) :=
    .byte _ _
  have second : Reads (byte CodecError.truncated) [UInt8.ofNat dict.length]
    (UInt8.ofNat dict.length) := .byte _ _
  have entries : Reads (times (word CodecError.truncated 2) dict.length) (dict.flatMap (toLe 2)) dict :=
    .times fun left member => .word _ (words left member)
  have codesFit (code : UInt64)
      (member : code ∈ ((values.map (leftOf (64 - leftWidth))).map (codeOf dict)).map fun code =>
      UInt64.ofNat (code.getD 0)) : code.toNat < 2 ^ 3 := by
    simp only [List.map_map, List.mem_map, Function.comp_apply] at member
    obtain ⟨bits, -, rfl⟩ := member
    have := codeOf_lt filled (leftOf (64 - leftWidth) bits)
    rw [codeOf_toNat filled short]
    omega
  have codes := unpackBits_reads codesFit (by simp only [List.length_map, chunk] at part ⊢; omega)
  have rightsFit (right : UInt64) (member : right ∈ values.map (rightOf (64 - leftWidth))) :
      right.toNat < 2 ^ (64 - leftWidth) := by
    obtain ⟨bits, -, rfl⟩ := List.mem_map.mp member
    exact rightOf_lt bits (by omega)
  have rights := unpackBits_reads rightsFit (by simp only [List.length_map]; omega)
  rw [List.length_map, List.length_map, List.length_map] at codes
  rw [List.length_map] at rights
  refine first.bind ?_
  rw [ofByte leftWidth (by omega), if_neg (by omega)]
  refine second.bind ?_
  rw [ofByte dict.length (by omega), if_neg (by omega)]
  refine entries.bind (codes.bind (rights.bind ?_))
  refine .congr ((rdValues_reads filled short).bind
    ((Reads.word _ (by simp only [chunk] at part; omega)).bind ?_)) (List.nil_append _) rfl
  refine rdExceptions_reads (by omega) (by omega) part (List.length_map _) fun i other => ?_
  rw [List.getElem?_map, List.getElem?_map] at other
  rw [List.getElem?_map]
  cases found : values[i]? with
  | none => rfl
  | some bits =>
    rw [found] at other
    by_cases known : leftOf (64 - leftWidth) bits ∈ dict
    · have inside := List.idxOf_lt_length_of_mem known
      rw [Option.map_some, codeOf, if_pos known, Option.getD_some, List.getD_eq_getElem?_getD,
        List.getElem?_eq_getElem inside,
        Option.getD_some, List.getElem_idxOf, joinParts_cut bits (by omega) (by omega)]
    · exact absurd (by rw [Option.map_some, Option.map_some, codeOf, if_neg known]) other

theorem decodeRdChunk_sound (count : Nat) : Sound (decodeRdChunk count) fun values _ =>
      values.length = count := by
  refine .bind (.byte _) fun leftWidth _ _ => ?_
  split
  · exact .refuse _
  · refine .bind (.byte _) fun dictLen _ _ => ?_
    split
    · exact .refuse _
    · refine .bind (.times ((Sound.word _ _).mono fun _ _ _ => trivial) _) fun dict _ _ => ?_
      refine .bind (unpackBits_sound _ _) fun codes _ codes_length =>
        .bind (unpackBits_sound _ _) fun rights _ rights_length => ?_
      have one (parts : UInt64 × UInt64) : Sound (readRdValue dict (64 - leftWidth.toNat) parts)
          fun _ _ => True := by
        unfold readRdValue
        split
        · exact .pure trivial
        · exact .refuse _
      refine .bind (.each one) fun values _ good => .bind (.word _ _) fun exceptions _ _ => ?_
      refine .change (fun values length => readRdException_sound length rights_length) exceptions ?_
      rw [good.1, List.length_zip, codes_length, rights_length, Nat.min_self]

/-! ### The column codec -/

variable {F : Type} [F64Arith F]

def encodeRawChunk (values : List F) : Bytes :=
  2 :: values.flatMap fun value => toLe 8 (F64.toBits value).toNat

/-- The smallest of the three modes; raw has to be beaten. -/
def encodeAlpF64Chunk (values : List F) : Bytes :=
  let rd := encodeRdChunk (values.map F64.toBits)
  let rawSize := 1 + values.length * 8
  let other := if rd.length < rawSize then rd else encodeRawChunk values
  match encodeAlpChunk values with
  | some alp => if alp.length ≤ rd.length ∧ alp.length < rawSize then alp else other
  | none => other

def encodeAlpF64 (values : List F) : Bytes := encodeChunks encodeAlpF64Chunk values

def readF64 : Reader CodecError F := (fun bits => F64.ofBits (UInt64.ofNat bits)) <$> word .truncated 8

def decodeAlpF64Chunk (count : Nat) : Reader CodecError (List F) := do
  let mode ← byte .truncated
  if mode = 0 then decodeAlpChunk count
  else if mode = 1 then (·.map F64.ofBits) <$> decodeRdChunk count
  else if mode = 2 then times readF64 count
  else lift (refuse (.invalid "unknown ALP chunk mode"))

def alpF64 (count : Nat) : Reader CodecError (List F) := readChunks decodeAlpF64Chunk count

/-- Decodes exactly `count` values; anything else in the bytes is an error. The capacity it asks for
is added by `withCapacity`. -/
def decodeAlpF64 (bytes : Bytes) (count : Nat) : Result CodecError (List F) :=
  exactly .trailingBytes (alpF64 count) bytes

theorem readF64_reads [LawfulBits F] (value : F) : Reads readF64
      (toLe 8 (F64.toBits value).toNat) value := by
  have reads := (Reads.word CodecError.truncated
    (show _ < 256 ^ 8 from (F64.toBits value).toNat_lt)).map
    fun bits => (F64.ofBits (UInt64.ofNat bits) : F)
  rw [UInt64.ofNat_toNat, LawfulBits.ofBits_toBits] at reads
  exact reads

theorem decodeAlpF64Chunk_reads [LawfulBits F] {values : List F} (some : values ≠ [])
    (part : values.length ≤ chunk) :
    Reads (decodeAlpF64Chunk values.length) (encodeAlpF64Chunk values) values := by
  have mode {tag : UInt8} {body : Bytes} (reads : Reads (if tag = 0 then decodeAlpChunk values.length
      else if tag = 1 then (·.map F64.ofBits) <$> decodeRdChunk values.length
      else if tag = 2 then times readF64 values.length
      else lift (refuse (.invalid "unknown ALP chunk mode"))) body values) :
      Reads (decodeAlpF64Chunk values.length) (tag :: body) values := by
    have first : Reads (byte CodecError.truncated) [tag] tag := .byte _ _
    exact first.bind reads
  have cut : Reads (decodeAlpF64Chunk values.length)
      (encodeRdChunk (values.map F64.toBits)) values := by
    obtain ⟨body, same, reads⟩ :=
      @decodeRdChunk_reads (values.map F64.toBits) (by simpa using some) (by simpa using part)
    rw [List.length_map] at reads
    have bits := reads.map fun bits => bits.map (F64.ofBits (F := F))
    rw [List.map_map] at bits
    rw [same]
    refine mode (bits.congr rfl ?_)
    conv_rhs => rw [← List.map_id values]
    exact List.map_congr_left fun value _ => LawfulBits.ofBits_toBits value
  have raw : Reads (decodeAlpF64Chunk values.length) (encodeRawChunk values) values :=
    mode (.times fun value _ => readF64_reads value)
  have other : Reads (decodeAlpF64Chunk values.length)
    (if (encodeRdChunk (values.map F64.toBits)).length < 1 + values.length * 8
      then encodeRdChunk (values.map F64.toBits) else encodeRawChunk values) values := by
    split
    · exact cut
    · exact raw
  unfold encodeAlpF64Chunk
  dsimp only
  split
  · next alp encoded =>
    split
    · obtain ⟨body, rfl, reads⟩ := decodeAlpChunk_reads part encoded
      exact mode reads
    · exact other
  · exact other

theorem alpF64_reads [LawfulBits F] (values : List F) : Reads (alpF64 values.length)
      (encodeAlpF64 values) values :=
  readChunks_reads (fun _ some part => decodeAlpF64Chunk_reads some part) values

theorem decode_encodeAlpF64 [LawfulBits F] (values : List F) : decodeAlpF64
      (encodeAlpF64 values) values.length = .ok values :=
  (alpF64_reads values).exactly _

theorem alpF64_sound (count : Nat) : Sound (alpF64 (F := F) count) fun values _ =>
      values.length = count := by
  refine readChunks_sound (fun count _ => .bind (.byte _) fun mode _ _ => ?_) count
  split
  · exact decodeAlpChunk_sound count
  · split
    · exact .map ((decodeRdChunk_sound count).mono fun values _ length => by
          rw [List.length_map, length])
    · split
      · have one : Sound (readF64 (F := F)) fun _ _ => True :=
          .map ((Sound.word _ _).mono fun _ _ _ => trivial)
        exact (Sound.times one count).mono fun values _ good => good.1
      · exact .refuse _

/-- No chunk costs more than its mode and its bits. -/
theorem encodeAlpF64Chunk_length (values : List F) : (encodeAlpF64Chunk values).length ≤ 1 + 8 *
      values.length := by
  have raw : (encodeRawChunk values).length = 1 + 8 * values.length := by
    rw [encodeRawChunk, List.length_cons, List.length_flatMap]
    simp [Nat.mul_comm, Nat.add_comm]
  have other : (if (encodeRdChunk (values.map F64.toBits)).length < 1 + values.length * 8
      then encodeRdChunk (values.map F64.toBits) else encodeRawChunk values).length ≤ 1 + 8 *
      values.length := by
    split
    · omega
    · exact raw.le
  unfold encodeAlpF64Chunk
  dsimp only
  split
  · split
    · omega
    · exact other
  · exact other

/-- The column codec gives back every bit, in chunks that never outgrow their values. -/
theorem encodeAlpF64_lossless [LawfulBits F] (values : List F) :
    decodeAlpF64 (encodeAlpF64 values) values.length = .ok values ∧
      ∀ part : List F, (encodeAlpF64Chunk part).length ≤ 1 + 8 * part.length :=
  ⟨decode_encodeAlpF64 values, encodeAlpF64Chunk_length⟩

/-- Both zeros, a subnormal, an infinity and a quiet NaN with a payload. -/
theorem encodeAlpF64_specials :
    let specials : List UInt64 := [0, 0x8000000000000000, 1, 0x7ff0000000000000, 0x7ff8000000000abc]
    decodeAlpF64 (encodeAlpF64 specials) 5 = .ok specials ∧
      ∀ part : List UInt64, (encodeAlpF64Chunk part).length ≤ 1 + 8 * part.length :=
  encodeAlpF64_lossless [0, 0x8000000000000000, 1, 0x7ff0000000000000, 0x7ff8000000000abc]

end TallyDB
