import Mathlib.Algebra.Order.Floor.Ring
import Mathlib.Data.Rat.Floor
import TallyDB.ArrowLite.Float

/-!
# Floating-point arithmetic

What the column codec and the query engine ask of the hardware's arithmetic. Nothing is
assumed of it; `UInt64` has the IEEE 754 operations, rounded to nearest with ties to even.
-/

namespace TallyDB

class F64Arith (F : Type) extends F64 F where
  /-- `as f64` on an integer. -/
  ofInt64 : Int64 → F
  mul : F → F → F
  /-- The literal `1e<exponent>`. -/
  decimal : Int → F

class F64Math (F : Type) extends F64Arith F where
  neg : F → F
  add : F → F → F
  sub : F → F → F
  div : F → F → F
  rem : F → F → F
  abs : F → F
  round : F → F
  floor : F → F
  ceil : F → F
  sqrt : F → F
  ln : F → F
  exp : F → F
  powf : F → F → F

namespace Exact

/-- The nearest integer, a tie to the even one. -/
def roundEven (q : ℚ) : Int :=
  let below := ⌊q⌋
  if q - below < 1 / 2 then below
  else if 1 / 2 < q - below then below + 1
  else if below % 2 = 0 then below else below + 1

/-- The nearest integer, a tie away from zero, as `f64::round` has it. -/
def roundAway (q : ℚ) : Int := if 0 ≤ q then ⌊q + 1 / 2⌋ else -⌊-q + 1 / 2⌋

def exponent (q : ℚ) : Int :=
  let guess : Int := (q.num.natAbs.log2 : Int) - q.den.log2
  if q < (2 : ℚ) ^ guess then guess - 1 else guess

/-- The bits of the double nearest to a number that is not negative. -/
def magnitudeBits (q : ℚ) : Nat :=
  if q = 0 then 0 else
    let e := max (exponent q) (-1022)
    let mantissa := roundEven (q / (2 : ℚ) ^ (e - 52))
    -- A mantissa of 53 bits carries its leading one into the exponent field.
    min ((e + 1022) * 2 ^ 52 + mantissa).toNat (2047 * 2 ^ 52)

/-- The double nearest to a number; `negative` is the sign of a zero. -/
def roundBits (q : ℚ) (negative : Bool) : UInt64 :=
  UInt64.ofNat (magnitudeBits |q| + if q < 0 ∨ (q = 0 ∧ negative) then 2 ^ 63 else 0)

end Exact

def signBit (bits : UInt64) : Bool := bits.toNat / 2 ^ 63 = 1

instance : F64Arith UInt64 where
  ofInt64 value := Exact.roundBits value.toInt false
  mul left right :=
    let negative := xor (signBit left) (signBit right)
    match Exact.ofBits left, Exact.ofBits right with
    | .finite x, .finite y => Exact.roundBits (x * y) negative
    | .nan, _ | _, .nan => 0x7ff8000000000000
    -- An infinity is left: times zero it is no number.
    | x, y => if x = .finite 0 ∨ y = .finite 0 then 0x7ff8000000000000
      else if negative then 0xfff0000000000000 else 0x7ff0000000000000
  decimal exponent := Exact.roundBits ((10 : ℚ) ^ exponent) false

namespace Ieee

def nan : UInt64 := 0x7ff8000000000000

def infinity (negative : Bool) : UInt64 := if negative then 0xfff0000000000000 else 0x7ff0000000000000

def add (left right : UInt64) : UInt64 :=
  match Exact.ofBits left, Exact.ofBits right with
  | .finite x, .finite y => Exact.roundBits (x + y) (signBit left && signBit right)
  | .nan, _ | _, .nan => nan
  | .posInf, .negInf | .negInf, .posInf => nan
  | .finite _, _ => right
  | _, _ => left

def div (left right : UInt64) : UInt64 :=
  let negative := xor (signBit left) (signBit right)
  match Exact.ofBits left, Exact.ofBits right with
  | .finite x, .finite y =>
    if y ≠ 0 then Exact.roundBits (x / y) negative else if x = 0 then nan else infinity negative
  | .nan, _ | _, .nan => nan
  | .finite _, _ => Exact.roundBits 0 negative
  | _, .finite _ => infinity negative
  | _, _ => nan

def rem (left right : UInt64) : UInt64 :=
  match Exact.ofBits left, Exact.ofBits right with
  | .finite x, .finite y =>
    if y = 0 then nan else
      let quotient := if 0 ≤ x / y then ⌊x / y⌋ else -⌊-(x / y)⌋
      Exact.roundBits (x - y * quotient) (signBit left)
  | .nan, _ | _, .nan => nan
  | .finite _, _ => left
  | _, _ => nan

/-- An integral rounding; infinities and NaN stay. -/
def integral (rounding : ℚ → Int) (bits : UInt64) : UInt64 :=
  match Exact.ofBits bits with
  | .finite q => Exact.roundBits (rounding q) (signBit bits)
  | _ => bits

def sqrt (bits : UInt64) : UInt64 :=
  match Exact.ofBits bits with
  | .finite q =>
    if q < 0 then nan else
      -- The root to 2000 more bits than a double keeps, and a half unit where it is not exact.
      let scaled := q.num.natAbs * q.den * 4 ^ 2000
      let root := Nat.sqrt scaled
      let half : ℚ := if root * root = scaled then 0 else 1 / 2
      Exact.roundBits ((root + half) / (q.den * 2 ^ 2000)) (signBit bits)
  | .negInf => nan
  | _ => bits

end Ieee

/-- `ln`, `exp` and `powf` are no operations of IEEE 754: they stand here at the points where they
are exact, and with NaN for the rest. -/
instance : F64Math UInt64 where
  neg bits := bits ^^^ 0x8000000000000000
  add := Ieee.add
  sub left right := Ieee.add left (right ^^^ 0x8000000000000000)
  div := Ieee.div
  rem := Ieee.rem
  abs bits := bits &&& 0x7fffffffffffffff
  round := Ieee.integral Exact.roundAway
  floor := Ieee.integral Int.floor
  ceil := Ieee.integral fun q => -⌊-q⌋
  sqrt := Ieee.sqrt
  ln bits := if Exact.ofBits bits = .finite 1 then 0 else Ieee.nan
  exp bits := if Exact.ofBits bits = .finite 0 then Exact.roundBits 1 false else Ieee.nan
  powf left right := match Exact.ofBits left, Exact.ofBits right with
    | .finite x, .finite y =>
      if y.den = 1 ∧ 0 ≤ y.num then Exact.roundBits (x ^ y.num.natAbs)
        (signBit left && y.num % 2 = 1) else Ieee.nan
    | _, _ => Ieee.nan

end TallyDB
