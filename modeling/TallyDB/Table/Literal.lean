import Mathlib.Data.List.TakeWhile
import TallyDB.ArrowLite.Exactness
import TallyDB.QueryLite.Lower
import TallyDB.Table.Mutate

/-!
# Literals that statements store

`INSERT` and `UPDATE` each read their literals off the parsed statement and each have their
own table of which literal a column takes. They agree but for integers in a float column.
-/

namespace TallyDB

/-- The reading of floats from text. -/
class F64Text (F : Type) extends F64Math F where
  /-- `str::parse`. -/
  parse : String → Option F

/-! ### Parsed literals -/

namespace Sql

/-- A parsed expression, of the forms that a cell can have. -/
inductive Cell where
  | number (text : String)
  | string (text : String)
  | null
  /-- Another literal, by how it is printed. -/
  | value (shown : String)
  | minus (inner : Cell)
  | other (shown : String)

end Sql

section Lowering

variable {F : Type} [F64Text F]

/-- A number, an integer wherever the text is one. -/
def parseNumber (text : String) : Except QueryError (Number F) :=
  match parseI64 text with
  | some value => .ok (.int value)
  | none => match F64Text.parse text with
    | some value => .ok (.float value)
    | none => .error (.parse s!"bad number literal '{text}'")

def Number.neg : Number F → Number F
  | .int value => .int (-value)
  | .float value => .float (F64Math.neg value)

def lowerInsertValue : Sql.Cell → Except QueryError (InsertValue F)
  | .number text => (parseNumber text).map .number
  | .string text => .ok (.string text)
  | .null => .ok .null
  | .value shown => .error (.unsupported s!"INSERT literal '{shown}'")
  | .minus inner => do
    match ← lowerInsertValue inner with
    | .number number => .ok (.number number.neg)
    | _ => .error (.unsupported "negation of a non-number")
  | .other shown => .error (.unsupported s!"INSERT expression '{shown}' (literals only)")

/-- The right side of `SET column = …`; `display` is how an expression is printed. -/
def lowerSetValue (display : Sql.Cell → String) (column : String) (value : Sql.Cell) :
    Except QueryError (SetValue F) :=
  let (negated, rhs) := match value with
    | .minus inner => (true, inner)
    | other => (false, other)
  match rhs with
  | .number text => do
    let number ← parseNumber text
    .ok (.number (if negated then number.neg else number))
  | .string text => if negated then .error (only column (display rhs)) else .ok (.string text)
  | .null => if negated then .error (only column (display rhs)) else .ok .null
  | .value shown => .error (only column shown)
  | .minus _ | .other _ =>
      .error (.unsupported s!"SET {column} = '{display value}' — literals only for now")
where
  only (column shown : String) : QueryError :=
    .unsupported s!"SET {column} = {shown} — numbers, strings, and NULL only"

end Lowering

/-! ### Numerals -/

def digitsValue (digits : List Char) : Nat :=
  digits.foldl (fun value digit => value * 10 + (digit.toNat - '0'.toNat)) 0

def splitSign : List Char → Bool × List Char
  | '-' :: rest => (true, rest)
  | '+' :: rest => (false, rest)
  | rest => (false, rest)

/-- The exponent behind the digits, none where the text does not go on so. -/
def exponentOf : List Char → Option ℤ
  | [] => some 0
  | mark :: rest =>
    let (negative, digits) := splitSign rest
    if (mark = 'e' || mark = 'E') && !digits.isEmpty && digits.all Char.isDigit then
      some (if negative then -(digitsValue digits : ℤ) else digitsValue digits)
    else none

/-- Digits with at most one point among them and an exponent behind, as a whole number and a power
of ten. -/
def numeral (text : List Char) : Option (Nat × ℤ) :=
  let whole := text.takeWhile Char.isDigit
  let (fraction, rest) := match text.dropWhile Char.isDigit with
    | '.' :: rest => (rest.takeWhile Char.isDigit, rest.dropWhile Char.isDigit)
    | rest => ([], rest)
  if whole.isEmpty && fraction.isEmpty then none
  else (exponentOf rest).map fun exponent =>
    (digitsValue (whole ++ fraction), exponent - (fraction.length : ℤ))

def decimal (text : String) : Option ℚ :=
  (numeral text.toList).map fun (mantissa, power) => mantissa * (10 : ℚ) ^ power

def digits (text : String) : Option Nat :=
  if text.toList.isEmpty || !text.toList.all Char.isDigit then none else some (digitsValue text.toList)

theorem digits_some {text : String} {magnitude : Nat} (read : digits text = some magnitude) :
    text.toList ≠ [] ∧ text.toList.all Char.isDigit = true ∧ digitsValue text.toList = magnitude := by
  unfold digits at read
  split at read
  · cases read
  · next pure_ =>
    simp only [Bool.or_eq_true, Bool.not_eq_true', not_or, Bool.not_eq_false] at pure_
    exact ⟨by simpa using pure_.1, pure_.2, Option.some.inj read⟩

theorem decimal_digits {text : String} {magnitude : Nat} (read : digits text = some magnitude) :
    decimal text = some (magnitude : ℚ) := by
  obtain ⟨filled, numeric, value⟩ := digits_some read
  have whole : text.toList.takeWhile Char.isDigit = text.toList :=
    List.takeWhile_eq_self_iff.mpr (List.all_eq_true.mp numeric)
  have behind : text.toList.dropWhile Char.isDigit = [] :=
    List.dropWhile_eq_nil_iff.mpr (List.all_eq_true.mp numeric)
  simp [decimal, numeral, whole, behind, filled, exponentOf, value]

theorem decimal_nonneg {text : String} {value : ℚ} (written : decimal text = some value) :
    0 ≤ value := by
  obtain ⟨⟨mantissa, power⟩, -, rfl⟩ := Option.map_eq_some_iff.mp written
  exact mul_nonneg (Nat.cast_nonneg _) (zpow_nonneg (by norm_num) _)

theorem numeral_head {text : List Char} {read : Nat × ℤ} (written : numeral text = some read) :
    ∃ first rest, text = first :: rest ∧ (first.isDigit = true ∨ first = '.') := by
  cases text with
  | nil => cases written
  | cons first rest =>
    refine ⟨first, rest, rfl, ?_⟩
    by_contra neither
    rw [not_or, Bool.not_eq_true] at neither
    unfold numeral at written
    rw [List.takeWhile_cons_of_neg (by simp [neither.1]), List.dropWhile_cons_of_neg (by
        simp [neither.1])] at written
    split at written
    next fraction behind parts =>
      split at parts
      · next same => exact neither.2 (List.cons.inj same).1
      · obtain ⟨rfl, -⟩ := Prod.mk.inj parts
        simp at written

theorem splitSign_unsigned {chars : List Char}
    (unsigned : chars.head? ≠ some '-' ∧ chars.head? ≠ some '+') :
    splitSign chars = (false, chars) := by
  unfold splitSign
  split
  · exact absurd rfl unsigned.1
  · exact absurd rfl unsigned.2
  · rfl

theorem numeral_unsigned {text : List Char} {read : Nat × ℤ} (written : numeral text = some read) :
    splitSign text = (false, text) := by
  obtain ⟨first, rest, rfl, head⟩ := numeral_head written
  have apart (sign : Char) (letter : sign.isDigit = false) (other : sign ≠ '.') :
      (first :: rest).head? ≠ some sign := by
    intro same
    obtain rfl := Option.some.inj same
    rcases head with digit | point
    · rw [letter] at digit
      cases digit
    · exact other point
  exact splitSign_unsigned ⟨apart '-' (by decide) (by decide), apart '+' (by decide) (by decide)⟩

/-! ### Literals -/

/-- A literal of the grammar: a number token is a numeral, and at most one minus stands before it.
-/
inductive Literal where
  | number (negative : Bool) (text : String) (written : (numeral text.toList).isSome)
  | string (text : String)
  | null

namespace Literal

def cell : Literal → Sql.Cell
  | number negative text _ => if negative then .minus (.number text) else .number text
  | string text => .string text
  | null => .null

def value : Literal → Option ℚ
  | number negative text _ =>
      (decimal text).map fun magnitude => if negative then -magnitude else magnitude
  | _ => none

/-- The integer written, of any size; none where the literal is no integer. -/
def integer : Literal → Option ℤ
  | number negative text _ =>
      (digits text).map fun magnitude : Nat => if negative then -(magnitude : ℤ) else magnitude
  | _ => none

/-- An integer whose digits an `i64` holds. -/
def Short (literal : Literal) : Prop := ∃ integer, literal.integer = some integer ∧ |integer| < 2 ^ 63

def Fits (literal : Literal) (field : Field) : Prop :=
  match literal with
  | number _ _ _ => field.columnType = .f64 ∨ field.columnType = .i64 ∧ literal.Short
  | string _ => field.columnType = .key
  | null => field.nullable = true

def stand {F : Type} : Literal → RowValue F
  | null => .null
  | _ => .i64 0

end Literal

/-- A float that holds a number as nearly as any does. -/
def Nearest {F : Type} [F64 F] (number : ℚ) (held : F) : Prop :=
  ∃ own, F64.exact held = .finite own ∧ ∀ (other : F) x, F64.exact other = .finite x →
    |own - number| ≤ |x - number|

def RowValue.HoldsInteger {F : Type} [F64 F] (value : RowValue F) (integer : ℤ) : Prop :=
  match value with
  | .f64 held => F64.exact held = .finite integer
  | .i64 held => held.toInt = integer
  | _ => False

/-- A cell that holds what was written: an integer as itself, another number as the nearest float.
-/
def Literal.Stored {F : Type} [F64 F] (literal : Literal) (value : RowValue F) : Prop :=
  match literal with
  | .number _ _ _ => match literal.integer with
    | some integer => value.HoldsInteger integer
    | none => ∃ number held, literal.value = some number ∧ value = .f64 held ∧ Nearest number held
  | .string text => value = .key text
  | .null => value = .null

/-- A number for a float column that no float holds: an integer between two floats, or a number past
all of them. -/
def Literal.Inexact (F : Type) [F64 F] (literal : Literal) (field : Field) : Prop :=
  field.columnType = .f64 ∧ match literal.integer with
    | some integer => ¬ ∃ x : F, F64.exact x = .finite integer
    | none => ∃ number, literal.value = some number ∧ Exact.limit ≤ |number|

/-- What is asked of the reading: a numeral is read as a nearest float, or past the limit as
no number, and a sign changes the sign. -/
class LawfulText (F : Type) [F64Text F] : Prop where
  nearest : ∀ text number, decimal text = some number → number < Exact.limit → ∃ held : F,
    F64Text.parse text = some held ∧ Nearest number held
  overflows : ∀ text number, decimal text = some number → Exact.limit ≤ number →
    ∃ held : F, F64Text.parse text = some held ∧ ∀ q, F64.exact held ≠ .finite q
  bounded : ∀ (x : F) (q : ℚ), F64.exact x = .finite q → |q| < Exact.limit
  neg : ∀ (x : F) (q : ℚ), F64.exact (F64Math.neg x) = .finite q ↔ F64.exact x = .finite (-q)

/-! ### Texts of doubles -/

namespace Ieee

def parseMagnitude (text : List Char) (negative : Bool) : Option UInt64 :=
  (numeral text).map fun (mantissa, power) =>
    let value : ℚ := mantissa * (10 : ℚ) ^ power
    Exact.roundBits (if negative then -value else value) negative

def parse (text : String) : Option UInt64 :=
  let (negative, rest) := splitSign text.toList
  if rest.map Char.toLower = "inf".toList || rest.map Char.toLower =
    "infinity".toList then some (infinity negative)
  else if rest.map Char.toLower =
    "nan".toList then some (if negative then nan ||| 0x8000000000000000 else nan)
  else parseMagnitude rest negative

end Ieee

instance : F64Text UInt64 := ⟨Ieee.parse⟩

theorem toLower_digit {c : Char} (digit : c.isDigit = true) : c.toLower = c := by
  unfold Char.toLower
  rw [dif_neg]
  rintro ⟨letter, -⟩
  simp only [Char.isDigit, Bool.and_eq_true, decide_eq_true_eq] at digit
  exact absurd (UInt32.le_trans letter digit.2) (by decide)

/-- A numeral is read as its rounding. -/
theorem Ieee.parse_decimal {text : String} {number : ℚ} (written : decimal text = some number) :
    Ieee.parse text = some (Exact.roundBits number false) := by
  obtain ⟨read, numeral_, rfl⟩ := Option.map_eq_some_iff.mp written
  have rounded : Ieee.parseMagnitude text.toList false =
      some (Exact.roundBits (read.1 * (10 : ℚ) ^ read.2) false) := by
    rw [Ieee.parseMagnitude, numeral_]
    rfl
  have signless := numeral_unsigned numeral_
  obtain ⟨first, rest, chars, head⟩ := numeral_head numeral_
  unfold Ieee.parse
  rw [chars] at rounded signless ⊢
  have word (c : Char) (tail : List Char) (letter : c.isDigit = false) (other : c ≠ '.') :
      (first :: rest).map Char.toLower ≠ c :: tail := by
    intro same
    rw [List.map_cons] at same
    have same := List.head_eq_of_cons_eq same
    rcases head with digit | rfl
    · rw [toLower_digit digit] at same
      rw [same, letter] at digit
      cases digit
    · exact other same.symm
  have inf : "inf".toList = 'i' :: "nf".toList := by decide
  have infinity : "infinity".toList = 'i' :: "nfinity".toList := by decide
  have nan : "nan".toList = 'n' :: "an".toList := by decide
  simp only [signless, inf, infinity, nan, word 'i' _ (by decide) (by decide),
    word 'n' _ (by decide) (by decide), decide_false, Bool.or_self,
    Bool.false_eq_true, if_false]
  exact rounded

instance : LawfulText UInt64 where
  nearest text number written small :=
    ⟨_, Ieee.parse_decimal written, Exact.roundBits_nearest (by
        rwa [abs_of_nonneg (decimal_nonneg written)]) false⟩
  overflows text number written large := by
    have positive := decimal_nonneg written
    refine ⟨_, Ieee.parse_decimal written, fun q held => ?_⟩
    have infinite := Exact.roundBits_overflow (by rwa [abs_of_nonneg positive]) false
    rw [if_neg (not_lt.mpr positive)] at infinite
    cases infinite.symm.trans held
  bounded _ _ held := Exact.ofBits_limit held
  neg x q := by
    have twice (x : UInt64) : (x ^^^ 0x8000000000000000) ^^^ 0x8000000000000000 = x := by
      rw [UInt64.xor_assoc, UInt64.xor_self, UInt64.xor_zero]
    constructor
    · intro held
      rw [← twice x]
      exact Exact.ofBits_flip held
    · intro held
      have flipped := Exact.ofBits_flip held
      rwa [neg_neg] at flipped

/-! ### Cells -/

section Cells

variable {F : Type} [F64Text F] (display : F → String) (show_ : Sql.Cell → String)

def insertedCell (field : Field) (literal : Sql.Cell) : Except EngineError (RowValue F) := do
  let value ← (lowerInsertValue literal).mapError .query
  let cell ← insertCell display field value
  (validateCell field cell).mapError .storage
  return cell

def assignedCell (field : Field) (column : String) (literal : Sql.Cell) : Except EngineError
      (RowValue F) := do
  let value ← (lowerSetValue show_ column literal).mapError .query
  let cell ← assignedValue field column value
  (validateCell field cell).mapError .storage
  return cell

end Cells

/-! ### Numbers -/

section Numbers

variable {F : Type} [F64Text F]

theorem parseI64_unsigned {text : String} (unsigned : splitSign text.toList = (false, text.toList)) :
    parseI64 text = (digits text).bind fun magnitude => if magnitude < 2 ^ 63 then some
      (.ofInt magnitude) else none := by
  have value (chars : List Char) (start : Nat) :
      chars.foldl (fun (value : ℤ) digit => value * 10 + (digit.toNat - '0'.toNat : ℕ)) start =
        (chars.foldl (fun value digit => value * 10 + (digit.toNat - '0'.toNat)) start : ℕ) := by
    induction chars generalizing start with
    | nil => rfl
    | cons first rest ih =>
      rw [List.foldl_cons, List.foldl_cons, ← ih]
      push_cast
      rfl
  have reads : parseI64 text =
      if (splitSign text.toList).2.isEmpty || !(splitSign text.toList).2.all Char.isDigit then none
      else
        let magnitude : ℤ :=
          (splitSign text.toList).2.foldl
          (fun value digit => value * 10 + (digit.toNat - '0'.toNat : ℕ)) 0
        let value := if (splitSign text.toList).1 then -magnitude else magnitude
        if -2 ^ 63 ≤ value ∧ value < 2 ^ 63 then some (.ofInt value) else none := rfl
  rw [reads, unsigned]
  unfold digits
  split
  · rfl
  · have magnitude := value text.toList 0
    rw [Nat.cast_zero] at magnitude
    simp only [Bool.false_eq_true, if_false, magnitude, Option.bind_some]
    have range (n : Nat) : (-2 ^ 63 ≤ (n : ℤ) ∧ (n : ℤ) < 2 ^ 63) ↔ n < 2 ^ 63 := by omega
    simp only [range]
    rfl

def readNumber (negative : Bool) (text : String) : Except QueryError (Number F) :=
  (parseNumber text).map fun number => if negative then number.neg else number

def signed (negative : Bool) (held : F) : F := if negative then F64Math.neg held else held

variable {negative : Bool} {text : String} {written : (numeral text.toList).isSome}

theorem lowerInsertValue_number :
    lowerInsertValue (Literal.number negative text written).cell = (readNumber negative text).map
      (InsertValue.number (F := F)) := by
  unfold readNumber Literal.cell
  cases negative <;> cases read : parseNumber (F := F) text <;>
    simp [lowerInsertValue, read, Except.map, bind, Except.bind]

theorem lowerSetValue_number (show_ : Sql.Cell → String) (column : String) :
    lowerSetValue show_ column
      (Literal.number negative text written).cell = (readNumber negative text).map
    (SetValue.number (F := F)) := by
  unfold readNumber Literal.cell
  cases negative <;> cases read : parseNumber (F := F) text <;>
    simp [lowerSetValue, read, Except.map, bind, Except.bind]

theorem numeral_decimal (written : (numeral text.toList).isSome) : ∃ number,
    decimal text = some number := by
  obtain ⟨read, numeral_⟩ := Option.isSome_iff_exists.mp written
  exact ⟨_, by rw [decimal, numeral_]; rfl⟩

/-- How a literal number is read: as itself where it is an integer that fits, else as the float that
its text is read as. -/
theorem readNumber_cases [LawfulText F] :
    (∃ integer, (Literal.number negative text written).integer = some integer ∧ |integer| < 2 ^ 63 ∧
        readNumber (F := F) negative text = .ok (.int (.ofInt integer))) ∨
      ¬ (Literal.number negative text written).Short ∧
        ∃ held : F, F64Text.parse text = some held ∧
          readNumber negative text = .ok (.float (signed negative held)) := by
  obtain ⟨number, decimal_⟩ := numeral_decimal written
  obtain ⟨held, parsed⟩ : ∃ held : F, F64Text.parse text = some held := by
    rcases lt_or_ge number Exact.limit with small | large
    · obtain ⟨held, parsed, -⟩ := LawfulText.nearest (F := F) text number decimal_ small
      exact ⟨held, parsed⟩
    · obtain ⟨held, parsed, -⟩ := LawfulText.overflows (F := F) text number decimal_ large
      exact ⟨held, parsed⟩
  have otherwise_ : Except.map (fun number : Number F => if negative then number.neg else number)
      (.ok (.float held) : Except QueryError (Number F)) = .ok (.float (signed negative held)) := by
        cases negative <;> rfl
  obtain ⟨read, numeral_⟩ := Option.isSome_iff_exists.mp written
  unfold readNumber parseNumber
  rw [parseI64_unsigned (numeral_unsigned numeral_)]
  simp only [parsed]
  cases digits_ : digits text with
  | none =>
    refine .inr ⟨?_, held, rfl, otherwise_⟩
    rintro ⟨integer, same, -⟩
    simp [Literal.integer, digits_] at same
  | some magnitude =>
    have whole : (Literal.number negative text written).integer =
        some (if negative then -(magnitude : ℤ) else magnitude) := by
      simp [Literal.integer, digits_]
    have size : |(if negative then -(magnitude : ℤ) else magnitude)| = magnitude := by
      split
      · rw [abs_neg, Nat.abs_cast]
      · rw [Nat.abs_cast]
    simp only [Option.bind_some]
    by_cases fits : magnitude < 2 ^ 63
    · refine .inl ⟨_, whole, by rw [size]; exact_mod_cast fits, ?_⟩
      rw [if_pos fits]
      cases negative
      · rfl
      · simp only [if_true, Except.map, Number.neg, Int64.neg_ofInt]
    · refine .inr ⟨?_, held, rfl, by rw [if_neg fits]; exact otherwise_⟩
      rintro ⟨integer, same, short⟩
      rw [whole] at same
      rw [← Option.some.inj same, size] at short
      exact fits (by exact_mod_cast short)

theorem Nearest.neg [LawfulText F] {number : ℚ} {held : F} (nearest : Nearest number held) : Nearest
      (-number) (F64Math.neg held) := by
  obtain ⟨own, value, least⟩ := nearest
  refine ⟨-own, (LawfulText.neg held _).mpr (by rwa [neg_neg]), fun other x same => ?_⟩
  have near := least (F64Math.neg other) (-x) ((LawfulText.neg other _).mpr (by rwa [neg_neg]))
  rwa [show -own - -number = -(own - number) by
      ring, abs_neg, show x - -number = -(-x - number) by ring, abs_neg]

theorem Nearest.holds {number : ℚ} {held : F} (nearest : Nearest number held) :
    F64.exact held = .finite number ↔ ∃ x : F, F64.exact x = .finite number := by
  constructor
  · exact fun own => ⟨_, own⟩
  · rintro ⟨x, same⟩
    obtain ⟨own, value, least⟩ := nearest
    have none := least x number same
    rw [sub_self, abs_zero] at none
    rw [value, sub_eq_zero.mp (abs_nonpos_iff.mp none)]

/-- The float that a literal is read as is the nearest one to it, or past the limit no number. -/
theorem read_float [LawfulText F] {held : F} (parsed : F64Text.parse text = some held) : ∃ number,
    (Literal.number negative text written).value = some number ∧
      (|number| < Exact.limit ∧ Nearest number (signed negative held) ∨ Exact.limit ≤ |number| ∧
        ∀ q, F64.exact (signed negative held) ≠ .finite q) := by
  obtain ⟨number, decimal_⟩ := numeral_decimal written
  have size : |if negative then -number else number| = number := by
    have positive := decimal_nonneg decimal_
    split
    · rw [abs_neg, abs_of_nonneg positive]
    · exact abs_of_nonneg positive
  refine ⟨_, by rw [Literal.value, decimal_]; rfl, ?_⟩
  rw [size]
  rcases lt_or_ge number Exact.limit with small | large
  · obtain ⟨held', parsed', nearest⟩ := LawfulText.nearest (F := F) text number decimal_ small
    obtain rfl := Option.some.inj (parsed.symm.trans parsed')
    refine .inl ⟨small, ?_⟩
    cases negative
    · exact nearest
    · exact nearest.neg
  · obtain ⟨held', parsed', infinite⟩ := LawfulText.overflows (F := F) text number decimal_ large
    obtain rfl := Option.some.inj (parsed.symm.trans parsed')
    refine .inr ⟨large, fun q same => ?_⟩
    cases negative
    · exact infinite q same
    · exact infinite _ ((LawfulText.neg held q).mp same)

theorem integer_value {integer : ℤ}
    (whole : (Literal.number negative text written).integer = some integer) :
    (Literal.number negative text written).value = some (integer : ℚ) := by
  obtain ⟨magnitude, digits_, rfl⟩ := Option.map_eq_some_iff.mp whole
  rw [Literal.value, decimal_digits digits_]
  cases negative <;> simp

/-- A float that is read for a literal holds it but where the literal is inexact. -/
theorem read_stored [LawfulText F] {held : F} {field : Field} (typed : field.columnType = .f64)
    (parsed : F64Text.parse text = some held) :
    (Literal.number negative text written).Stored (RowValue.f64 (signed negative held)) ↔
      ¬ (Literal.number negative text written).Inexact F field := by
  obtain ⟨number, value, reads⟩ := @read_float F _ negative text written _ held parsed
  unfold Literal.Stored Literal.Inexact
  simp only [typed, true_and]
  cases whole : (Literal.number negative text written).integer with
  | some integer =>
    obtain rfl := Option.some.inj ((integer_value whole).symm.trans value)
    simp only [RowValue.HoldsInteger, not_not]
    rcases reads with ⟨-, nearest⟩ | ⟨large, infinite⟩
    · exact nearest.holds
    · refine iff_of_false (infinite _) ?_
      rintro ⟨x, same⟩
      exact absurd (LawfulText.bounded x _ same) (not_lt.mpr large)
  | none =>
    simp only [value, Option.some.injEq, exists_eq_left', RowValue.f64.injEq, not_le]
    rcases reads with ⟨small, nearest⟩ | ⟨large, infinite⟩
    · exact iff_of_true ⟨_, _, rfl, rfl, nearest⟩ small
    · refine iff_of_false ?_ (not_lt.mpr large)
      rintro ⟨_, _, rfl, rfl, own, same, -⟩
      exact infinite own same

/-- The conversion of an integer is exact if some float holds it. -/
theorem ofInt64_holds [LawfulRounding F] (v : Int64) :
    F64.exact (F64Arith.ofInt64 v : F) = .finite v.toInt ↔ ∃ x : F, F64.exact x = .finite v.toInt := by
  constructor
  · exact fun own => ⟨_, own⟩
  · rintro ⟨x, own⟩
    rcases lt_trichotomy (F64.exact x) (F64.exact (F64Arith.ofInt64 v : F)) with less | same | more
    · exact absurd (LawfulRounding.below v x less) (own ▸ lt_irrefl _)
    · rw [← same, own]
    · exact absurd (LawfulRounding.above v x more) (own ▸ lt_irrefl _)

end Numbers

/-! ### Two coercions -/

/-- What the two statements make of a literal in a column. -/
inductive Literal.Coerced {F : Type} [F64 F] (literal : Literal) (field : Field)
    (inserted assigned : Except EngineError (RowValue F)) : Prop where
  /-- Both store it. -/
  | stored (cell : RowValue F) (fits : literal.Fits field) (exact_ : ¬ literal.Inexact F field)
      (null : cell.isNull = (literal.stand : RowValue F).isNull) (holds : literal.Stored cell)
      (first : inserted = .ok cell) (second : assigned = .ok cell)
  /-- Both refuse it. -/
  | refused (unfit : ¬ literal.Fits field) (exact_ : ¬ literal.Inexact F field)
      (first : ∃ e, inserted = .error e) (second : ∃ e, assigned = .error e)
  /-- The first refuses an integer that the second rounds. -/
  | rounded (cell : RowValue F) (short : literal.Short) (inexact : literal.Inexact F field)
      (null : cell.isNull = (literal.stand : RowValue F).isNull)
      (other : ¬ literal.Stored cell) (first : ∃ e, inserted = .error e) (second : assigned = .ok cell)
  /-- Both store another number. -/
  | misread (cell : RowValue F) (long : ¬ literal.Short) (inexact : literal.Inexact F field)
      (null : cell.isNull = (literal.stand : RowValue F).isNull)
      (other : ¬ literal.Stored cell) (first : inserted = .ok cell) (second : assigned = .ok cell)

section Coerced

variable {F : Type} [F64Text F] {display : F → String} {show_ : Sql.Cell → String} {field : Field}
  {column : String}

omit [F64Text F] in
theorem validateCell_float (typed : field.columnType = .f64) (value : F) : validateCell field
      (.f64 value) = .ok () := by
  simp [validateCell, RowValue.hasType, typed]

omit [F64Text F] in
theorem validateCell_int (typed : field.columnType = .i64) (value : Int64) : validateCell field
      (.i64 value : RowValue F) = .ok () := by
  simp [validateCell, RowValue.hasType, typed]

variable {negative : Bool} {text : String} {written : (numeral text.toList).isSome}

theorem insertedCell_number {number : Number F} (read : readNumber negative text = .ok number) :
    insertedCell display field (Literal.number negative text written).cell = (do
      let cell ← insertCell display field (.number number)
      (validateCell field cell).mapError .storage
      return cell) := by
  rw [insertedCell, lowerInsertValue_number, read]
  rfl

theorem assignedCell_number {number : Number F} (read : readNumber negative text = .ok number) :
    assignedCell show_ field column (Literal.number negative text written).cell = (do
      let cell ← assignedValue field column (.number number)
      (validateCell field cell).mapError .storage
      return cell) := by
  rw [assignedCell, lowerSetValue_number, read]
  rfl

theorem coerced_key {number : Number F} (typed : field.columnType = .key)
    (read : readNumber negative text = .ok number) :
    (Literal.number negative text written).Coerced field
    (insertedCell display field (Literal.number negative text written).cell)
      (assignedCell show_ field column (Literal.number negative text written).cell) := by
  rw [insertedCell_number read, assignedCell_number read]
  refine .refused ?_ ?_ ?_ ?_
  · simp [Literal.Fits, typed]
  · simp [Literal.Inexact, typed]
  · cases number <;> simp [insertCell, typed, bind, Except.bind]
  · cases number <;> simp [assignedValue, typed, bind, Except.bind]

variable [LawfulRounding F] [LawfulText F]

omit [LawfulText F] in
theorem coerced_int {integer : ℤ}
    (whole : (Literal.number negative text written).integer = some integer) (size : |integer| < 2 ^ 63)
    (read : readNumber (F := F) negative text = .ok (.int (.ofInt integer))) :
    (Literal.number negative text written).Coerced field
      (insertedCell display field (Literal.number negative text written).cell)
      (assignedCell show_ field column (Literal.number negative text written).cell) := by
  obtain ⟨low, high⟩ := abs_lt.mp size
  have value := Int64.toInt_ofInt_of_le low.le high
  have holds := @ofInt64_holds F _ _ (Int64.ofInt integer)
  rw [value] at holds
  have stored (cell : RowValue F) : (Literal.number negative text written).Stored cell ↔
      cell.HoldsInteger integer := by
    unfold Literal.Stored
    rw [whole]
  have short : (Literal.number negative text written).Short := ⟨integer, whole, size⟩
  cases typed : field.columnType with
  | f64 =>
    have inexact : (Literal.number negative text written).Inexact F field ↔ ¬ ∃ x : F,
        F64.exact x = .finite integer := by
      unfold Literal.Inexact
      simp only [whole, typed, true_and]
    have put : assignedCell show_ field column (Literal.number negative text written).cell =
        .ok (.f64 (F64Arith.ofInt64 (.ofInt integer) : F)) := by
      rw [assignedCell_number read]
      simp only [assignedValue, typed, bind, Except.bind, validateCell_float typed]
      rfl
    by_cases exact_ : F64.exact (F64Arith.ofInt64 (.ofInt integer) : F) = .finite integer
    · refine .stored (.f64 (F64Arith.ofInt64 (.ofInt integer))) (.inl typed)
        (fun other => inexact.mp other (holds.mp exact_)) rfl
        ((stored _).mpr exact_) ?_ put
      rw [insertedCell_number read]
      simp only [insertCell, typed]
      rw [if_neg (by rw [value]; exact not_not.mpr exact_)]
      simp only [bind, Except.bind, validateCell_float typed]
      rfl
    · refine .rounded (.f64 (F64Arith.ofInt64 (.ofInt integer))) short
        (inexact.mpr fun held => exact_ (holds.mpr held)) rfl
        (fun own => exact_ ((stored _).mp own)) ?_ put
      rw [insertedCell_number read]
      simp only [insertCell, typed]
      rw [if_pos (by rw [value]; exact exact_)]
      exact ⟨_, rfl⟩
  | i64 =>
    refine .stored (.i64 (.ofInt integer)) (.inr ⟨typed, short⟩) (by simp [Literal.Inexact, typed])
      rfl ((stored _).mpr value) ?_ ?_
    · rw [insertedCell_number read]
      simp only [insertCell, typed, bind, Except.bind, validateCell_int typed]
      rfl
    · rw [assignedCell_number read]
      simp only [assignedValue, typed, bind, Except.bind, validateCell_int typed]
      rfl
  | key => exact coerced_key typed read

omit [LawfulRounding F] in
theorem coerced_float {held : F} (long : ¬ (Literal.number negative text written).Short)
    (parsed : F64Text.parse text = some held)
    (read : readNumber (F := F) negative text = .ok (.float (signed negative held))) :
    (Literal.number negative text written).Coerced field
      (insertedCell display field (Literal.number negative text written).cell)
      (assignedCell show_ field column (Literal.number negative text written).cell) := by
  cases typed : field.columnType with
  | f64 =>
    have stored := @read_stored F _ negative text written _ held field typed parsed
    have taken : insertedCell display field (Literal.number negative text written).cell =
        .ok (.f64 (signed negative held)) := by
      rw [insertedCell_number read]
      simp only [insertCell, typed, bind, Except.bind, validateCell_float typed]
      rfl
    have put : assignedCell show_ field column (Literal.number negative text written).cell =
        .ok (.f64 (signed negative held)) := by
      rw [assignedCell_number read]
      simp only [assignedValue, typed, bind, Except.bind, validateCell_float typed]
      rfl
    by_cases inexact : (Literal.number negative text written).Inexact F field
    · exact .misread (.f64 (signed negative held)) long inexact rfl
        (fun own => stored.mp own inexact) taken put
    · exact .stored (.f64 (signed negative held)) (.inl typed) inexact rfl
        (stored.mpr inexact) taken put
  | i64 =>
    refine .refused ?_ (by simp [Literal.Inexact, typed]) ?_ ?_
    · rintro (other | ⟨-, short⟩)
      · rw [typed] at other
        cases other
      · exact long short
    · rw [insertedCell_number read]
      simp [insertCell, typed, bind, Except.bind]
    · rw [assignedCell_number read]
      simp [assignedValue, typed, bind, Except.bind]
  | key => exact coerced_key typed read

theorem Literal.coerced (literal : Literal) :
    literal.Coerced (F := F) field (insertedCell display field literal.cell)
      (assignedCell show_ field column literal.cell) := by
  cases literal with
  | number negative text written =>
    rcases @readNumber_cases F _ negative text written _ with ⟨integer, whole, size, read⟩ | ⟨long,
      held, parsed, read⟩
    · exact coerced_int whole size read
    · exact coerced_float long parsed read
  | string text =>
    have exact_ : ¬ Literal.Inexact F (.string text) field := by
      rintro ⟨-, number, written, -⟩
      cases written
    cases typed : field.columnType with
    | key =>
      refine .stored (.key text) typed exact_ rfl rfl ?_ ?_
      · simp [insertedCell, Literal.cell, lowerInsertValue, insertCell, validateCell,
          RowValue.hasType, typed, Except.mapError, bind, Except.bind]
        rfl
      · simp [assignedCell, Literal.cell, lowerSetValue, assignedValue, validateCell,
          RowValue.hasType, typed, Except.mapError, bind, Except.bind]
        rfl
    | f64 | i64 =>
      refine .refused (by simp [Literal.Fits, typed]) exact_ ?_ ?_
      · simp [insertedCell, Literal.cell, lowerInsertValue, insertCell, validateCell,
          RowValue.hasType, typed, Except.mapError, bind, Except.bind]
      · simp [assignedCell, Literal.cell, lowerSetValue, assignedValue, typed, Except.mapError,
          bind, Except.bind]
  | null =>
    have exact_ : ¬ Literal.Inexact F .null field := by
      rintro ⟨-, number, written, -⟩
      cases written
    by_cases nullable : field.nullable = true
    · refine .stored .null nullable exact_ rfl rfl ?_ ?_
      · simp [insertedCell, Literal.cell, lowerInsertValue, insertCell, validateCell, nullable,
          Except.mapError, bind, Except.bind]
        rfl
      · simp [assignedCell, Literal.cell, lowerSetValue, assignedValue, validateCell, nullable,
          Except.mapError, bind, Except.bind]
        rfl
    · refine .refused nullable exact_ ?_ ?_
      · simp [insertedCell, Literal.cell, lowerInsertValue, insertCell, validateCell, nullable,
          Except.mapError, bind, Except.bind]
      · simp [assignedCell, Literal.cell, lowerSetValue, assignedValue, nullable, Except.mapError,
          bind, Except.bind]

end Coerced

/-! ### Rows -/

section Rows

variable {F : Type} [F64Text F] (display : F → String) (show_ : Sql.Cell → String)

def insertedRow (schema : Schema) (columns : Option (List String)) (row : List Sql.Cell) :
    Except EngineError (Row F) := do
  let values ← (row.mapM lowerInsertValue).mapError .query
  let order ← insertOrder schema columns
  let cells ← insertCells display schema order values
  (schema.validate cells).mapError .storage
  return cells

def updatedRow (schema : Schema) (column : String) (literal : Sql.Cell) (cells : Row F) :
    Except EngineError (Row F) := do
  let value ← (lowerSetValue show_ column literal).mapError .query
  let assigned ← assignedCells schema [⟨column, value⟩]
  (schema.validate (overwrite assigned cells)).mapError .storage
  return overwrite assigned cells

/-- A list with one value wherever a column's place is listed. -/
def replacedAt {α : Type} (position : Nat) (value : α) (row : List α) (order : List Nat) : List α :=
  row.zipWith (fun old place => if place = position then value else old) order

variable {display show_} {position : Nat}

theorem mapM_replaced {literal : Sql.Cell} {value : InsertValue F}
    (lowered : lowerInsertValue literal = .ok value) {row : List Sql.Cell}
    {values : List (InsertValue F)} (read : row.mapM lowerInsertValue = .ok values) (order : List Nat) :
    (replacedAt position literal row order).mapM lowerInsertValue = .ok
    (replacedAt position value values order) := by
  induction row generalizing values order with
  | nil =>
    obtain rfl := Except.ok.inj read
    rfl
  | cons first rest ih =>
    rw [List.mapM_cons] at read
    obtain ⟨own, head, read⟩ := except_bind_ok read
    obtain ⟨others, tail, read⟩ := except_bind_ok read
    obtain rfl := Except.ok.inj read
    cases order with
    | nil => rfl
    | cons place order =>
      have later := ih tail order
      unfold replacedAt at later ⊢
      rw [List.zipWith_cons_cons, List.zipWith_cons_cons, List.mapM_cons, later]
      split
      · rw [lowered]
        rfl
      · rw [head]
        rfl

theorem mapM_refused {literal : Sql.Cell} {e : QueryError}
    (lowered : lowerInsertValue (F := F) literal = .error e) {row : List Sql.Cell}
    {order : List Nat} (long : row.length = order.length) (listed : position ∈ order) :
    ∃ e', (replacedAt position literal row order).mapM (lowerInsertValue (F := F)) = .error e' := by
  cases result : (replacedAt position literal row order).mapM (lowerInsertValue (F := F)) with
  | error e' => exact ⟨e', rfl⟩
  | ok values =>
    exfalso
    obtain ⟨i, inside, same⟩ := List.mem_iff_getElem.mp listed
    have here : (replacedAt position literal row order)[i]? = some literal := by
      simp [replacedAt, long, inside, same]
    obtain ⟨value, -, own⟩ := forall₂_get (except_mapM_ok result) here
    rw [lowered] at own
    cases own

variable {schema : Schema} {value : InsertValue F} {cell : RowValue F}

def Schema.fieldAt (schema : Schema) (position : Nat) : Field :=
  schema.fields.getD position (.new "" .f64 false)

section Placing

variable (taken : insertCell display (schema.fieldAt position) value = .ok cell)

include taken

/-- Where the new cell is in place already, placing the literals leaves it there. -/
theorem placeCells_replaced {values : List (InsertValue F)} {order : List Nat} {cells out : Row F}
    (placed : placeCells display schema.fields (values.zip order) cells = .ok out) :
    placeCells display schema.fields ((replacedAt position value values order).zip order)
      (cells.set position cell) = .ok (out.set position cell) := by
  induction values generalizing order cells with
  | nil =>
    obtain rfl := Except.ok.inj placed
    rfl
  | cons first rest ih =>
    cases order with
    | nil =>
      obtain rfl := Except.ok.inj placed
      rfl
    | cons place order =>
      rw [List.zip_cons_cons, placeCells] at placed
      obtain ⟨own, head, placed⟩ := except_bind_ok placed
      unfold replacedAt
      rw [List.zipWith_cons_cons, List.zip_cons_cons, placeCells]
      by_cases here : place = position
      · subst here
        rw [if_pos rfl, show insertCell display (schema.fields.getD place (.new "" .f64 false))
          value = .ok cell from taken]
        have later := ih placed
        rw [List.set_set] at later
        simp only [bind, Except.bind, List.set_set]
        exact later
      · rw [if_neg here, head]
        have later := ih placed
        simp only [bind, Except.bind]
        rw [List.set_comm _ _ (Ne.symm here)]
        exact later

/-- A listed column gets the new cell whatever was in its place. -/
theorem placeCells_listed {values : List (InsertValue F)} {order : List Nat}
    (long : values.length = order.length) (listed : position ∈ order)
    (cells : Row F) : placeCells display schema.fields
      ((replacedAt position value values order).zip order) (cells.set position cell) =
      placeCells display schema.fields ((replacedAt position value values order).zip order) cells := by
  induction values generalizing order cells with
  | nil =>
    obtain rfl := List.length_eq_zero_iff.mp long.symm
    cases listed
  | cons first rest ih =>
    cases order with
    | nil => cases listed
    | cons place order =>
      unfold replacedAt
      rw [List.zipWith_cons_cons, List.zip_cons_cons, placeCells, placeCells]
      by_cases here : place = position
      · subst here
        rw [if_pos rfl, show insertCell display (schema.fields.getD place (.new "" .f64 false))
          value = .ok cell from taken]
        simp only [bind, Except.bind, List.set_set]
      · rw [if_neg here]
        have later := ih (Nat.succ.inj long) ((List.mem_cons.mp listed).resolve_left (Ne.symm here))
        cases insertCell display (schema.fields.getD place (.new "" .f64 false)) first with
        | error e => rfl
        | ok own =>
          simp only [bind, Except.bind]
          rw [List.set_comm _ _ (Ne.symm here)]
          exact later _

end Placing

theorem placeCells_refused {e : EngineError}
    (refused : insertCell display (schema.fieldAt position) value = .error e)
    {values : List (InsertValue F)} {order : List Nat} (long : values.length = order.length)
    (listed : position ∈ order) (cells : Row F) :
    ∃ e', placeCells display schema.fields
      ((replacedAt position value values order).zip order) cells = .error e' := by
  induction values generalizing order cells with
  | nil =>
    obtain rfl := List.length_eq_zero_iff.mp long.symm
    cases listed
  | cons first rest ih =>
    cases order with
    | nil => cases listed
    | cons place order =>
      unfold replacedAt
      rw [List.zipWith_cons_cons, List.zip_cons_cons, placeCells]
      by_cases here : place = position
      · subst here
        rw [if_pos rfl, show insertCell display (schema.fields.getD place (.new "" .f64 false))
          value = .error e from refused]
        exact ⟨e, rfl⟩
      · rw [if_neg here]
        cases insertCell display (schema.fields.getD place (.new "" .f64 false)) first with
        | error e' => exact ⟨e', rfl⟩
        | ok own =>
            exact ih (Nat.succ.inj long) ((List.mem_cons.mp listed).resolve_left (Ne.symm here)) _

omit [F64Text F] in
/-- A valid row with another cell in a column is valid if that cell is. -/
theorem validateCells_set {fields : List Field} {cells : Row F}
    (same : cells.length = fields.length) (valid : validateCells fields cells = .ok ())
    (inside : position < fields.length) (cell : RowValue F) :
    validateCells fields (cells.set position cell) = .ok () ↔ validateCell
      (fields.getD position (.new "" .f64 false)) cell = .ok () := by
  induction fields generalizing cells position with
  | nil => cases inside
  | cons field fields ih =>
    cases cells with
    | nil => cases same
    | cons first rest =>
      rw [validateCells] at valid
      obtain ⟨_, head, tail⟩ := except_bind_ok valid
      cases position with
      | zero =>
        rw [List.set_cons_zero, validateCells, List.getD_cons_zero]
        cases validateCell field cell with
        | error e => constructor <;> intro ok <;> cases ok
        | ok _ => exact ⟨fun _ => rfl, fun _ => tail⟩
      | succ position =>
        rw [List.set_cons_succ, validateCells, List.getD_cons_succ, head]
        exact ih (Nat.succ.inj same) tail (Nat.lt_of_succ_lt_succ inside)

omit [F64Text F] in
theorem Schema.validate_set {cells : Row F} (valid : schema.validate cells = .ok ())
    (inside : position < schema.fields.length) (cell : RowValue F) :
    schema.validate (cells.set position cell) = .ok () ↔ validateCell
      (schema.fieldAt position) cell = .ok () := by
  unfold Schema.validate at valid ⊢
  split at valid
  · cases valid
  · next long =>
    rw [if_neg (by rw [List.length_set]; exact long)]
    exact validateCells_set (not_not.mp long) valid inside cell

theorem columnPosition_lt {name : String} (declared : columnPosition schema name = .ok position) :
    position < schema.fields.length := by
  unfold columnPosition at declared
  split at declared
  · next found =>
    obtain rfl := Except.ok.inj declared
    exact (List.findIdx?_eq_some_iff_getElem.mp found).1
  · cases declared

omit [F64Text F] in
theorem toOption_checked {α β : Type} {first second : Except StorageError Unit}
    (agree : first = .ok () ↔ second = .ok ()) (f : α → β) (x : α) :
    ((first.mapError EngineError.storage) >>= fun _ => pure (f x)).toOption =
      ((second.mapError EngineError.storage) >>= fun _ => pure x).toOption.map f := by
  cases passed : second with
  | ok _ =>
    rw [agree.mpr passed]
    rfl
  | error e =>
    cases refused : first with
    | ok _ =>
      rw [agree.mp refused] at passed
      cases passed
    | error e' => rfl

section Accepted

variable {columns : Option (List String)} {order : List Nat} {row : List Sql.Cell} {cells : Row F}
  {column : String} {literal : Sql.Cell}
variable (ordered : insertOrder schema columns = .ok order)
  (accepted : insertedRow display schema columns row = .ok cells)

include ordered accepted

theorem insertedRow_ok : ∃ values : List (InsertValue F), row.mapM lowerInsertValue = .ok values ∧
    values.length = order.length ∧
    row.length = order.length ∧ placeCells display schema.fields (values.zip order)
      (List.replicate schema.fields.length .null) = .ok cells ∧
    schema.validate cells = .ok () := by
  unfold insertedRow at accepted
  obtain ⟨values, lowered, accepted⟩ := except_bind_ok accepted
  rw [ordered] at accepted
  obtain ⟨out, placed, accepted⟩ :=
    except_bind_ok (show (insertCells display schema order values >>= _) = _ from accepted)
  obtain ⟨_, valid, accepted⟩ := except_bind_ok accepted
  obtain rfl := Except.ok.inj accepted
  have read : row.mapM (lowerInsertValue (F := F)) = .ok values := by
    cases result : row.mapM (lowerInsertValue (F := F)) with
    | error e => rw [result] at lowered; cases lowered
    | ok own => rw [result] at lowered; rw [← Except.ok.inj lowered]
  unfold insertCells at placed
  split at placed
  · cases placed
  · next long =>
    have long := not_not.mp long
    refine ⟨values, read, long, (except_mapM_ok read).length_eq.trans long, placed, ?_⟩
    cases result : schema.validate out with
    | error e => rw [result] at valid; cases valid
    | ok _ => rfl

/-- Another literal in a column stores another cell, or is refused for that cell. -/
theorem insertedRow_replaced (inside : position < schema.fields.length) (listed : position ∈ order) :
    (insertedRow display schema columns (replacedAt position literal row order)).toOption =
      (insertedCell display (schema.fieldAt position) literal).toOption.map (cells.set position) := by
  obtain ⟨values, read, long, long', placed, valid⟩ := insertedRow_ok ordered accepted
  unfold insertedRow insertedCell
  rw [ordered]
  cases lowered : lowerInsertValue (F := F) literal with
  | error e =>
    obtain ⟨e', refused⟩ := mapM_refused lowered long' listed
    rw [refused]
    rfl
  | ok value =>
    rw [mapM_replaced lowered read order]
    have same : (replacedAt position value values order).length = order.length := by
      rw [replacedAt, List.length_zipWith, long, Nat.min_self]
    simp only [Except.mapError, bind, Except.bind]
    unfold insertCells
    rw [if_neg (not_not.mpr same)]
    cases taken : insertCell display (schema.fieldAt position) value with
    | error e =>
      obtain ⟨e', refused⟩ :=
        placeCells_refused taken long listed (List.replicate schema.fields.length .null)
      rw [refused]
      rfl
    | ok cell =>
      rw [← placeCells_listed taken long listed, placeCells_replaced taken placed]
      exact toOption_checked (schema.validate_set valid inside cell) _ cell

/-- What an `UPDATE` leaves of an accepted row. -/
theorem updatedRow_eq (declared : columnPosition schema column = .ok position) :
    (updatedRow show_ schema column literal cells).toOption =
      (assignedCell show_ (schema.fieldAt position) column literal).toOption.map
      (cells.set position) := by
  obtain ⟨_, -, -, -, -, valid⟩ := insertedRow_ok ordered accepted
  unfold updatedRow assignedCell
  cases lowered : lowerSetValue (F := F) show_ column literal with
  | error e => rfl
  | ok value =>
    simp only [Except.mapError, bind, Except.bind, assignedCells, List.mapM_cons,
      List.mapM_nil, declared]
    cases taken : assignedValue (F := F) (schema.fields.getD position (.new "" .f64 false))
      column value with
    | error e =>
      rw [Schema.fieldAt, taken]
      rfl
    | ok cell =>
      rw [Schema.fieldAt, taken]
      exact toOption_checked (schema.validate_set valid (columnPosition_lt declared) cell) _ cell

end Accepted

end Rows

end TallyDB
