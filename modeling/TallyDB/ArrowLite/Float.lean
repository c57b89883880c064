import Mathlib.Algebra.GroupWithZero.Nat
import Mathlib.Algebra.Order.Field.Rat
import Mathlib.Order.WithBot
import Mathlib.Tactic.Linarith
import Mathlib.Tactic.Ring

/-!
# Floating-point cells

A cell type `F` stands for the engine's `f64`: it has the 64 bits that storage keeps and
the exact number those bits mean. Everything that compares cells goes through the number,
so both zeros compare equal and every NaN is one value above all others.
-/

namespace TallyDB

/-- The exact value of a 64-bit float. -/
inductive Exact where
  | negInf
  | finite (value : ℚ)
  | posInf
  | nan
  deriving DecidableEq

namespace Exact

/-- The comparison order: NaN on top, then the infinities around the numbers. -/
def rank : Exact → WithTop (WithTop (WithBot ℚ))
  | negInf => ((⊥ : WithBot ℚ) : WithTop (WithBot ℚ))
  | finite value => ((value : WithBot ℚ) : WithTop (WithBot ℚ))
  | posInf => ((⊤ : WithTop (WithBot ℚ)) : WithTop (WithTop (WithBot ℚ)))
  | nan => ⊤

theorem rank_injective : Function.Injective rank := by
  intro x y same
  cases x <;> cases y <;> simp_all [rank, WithBot.coe_inj]

instance : LinearOrder Exact := LinearOrder.lift' rank rank_injective

theorem le_iff_rank {x y : Exact} : x ≤ y ↔ x.rank ≤ y.rank := Iff.rfl

theorem lt_iff_rank {x y : Exact} : x < y ↔ x.rank < y.rank := Iff.rfl

theorem le_nan (x : Exact) : x ≤ nan := le_iff_rank.mpr le_top

theorem finite_lt_nan (value : ℚ) : finite value < nan := lt_iff_rank.mpr (WithTop.coe_lt_top _)

theorem finite_lt_finite {x y : ℚ} : finite x < finite y ↔ x < y := by
  simp [lt_iff_rank, rank]

theorem lt_nan_of_ne {x : Exact} (number : x ≠ nan) : x < nan := lt_of_le_of_ne (le_nan x) number

/-- The number that an IEEE 754 binary64 bit pattern means. -/
def ofBits (bits : UInt64) : Exact :=
  let sign : ℚ := if bits.toNat / 2 ^ 63 = 0 then 1 else -1
  let exponent : Nat := bits.toNat / 2 ^ 52 % 2 ^ 11
  let fraction : Nat := bits.toNat % 2 ^ 52
  if exponent = 2047 then
    if fraction = 0 then (if bits.toNat / 2 ^ 63 = 0 then posInf else negInf) else nan
  else if exponent = 0 then finite (sign * (fraction : ℚ) / 2 ^ 1074)
  else finite (sign * ((2 ^ 52 + fraction : Nat) : ℚ) * 2 ^ exponent / 2 ^ 1075)

end Exact

/-- What the engine asks of its `f64`. -/
class F64 (F : Type) where
  /-- The number a cell holds. -/
  exact : F → Exact
  toBits : F → UInt64
  ofBits : UInt64 → F
  zero : F
  nan : F

/-- Storing a cell's bits and reading them back gives the cell. -/
class LawfulBits (F : Type) [F64 F] : Prop where
  ofBits_toBits : ∀ value : F, F64.ofBits (F64.toBits value) = value

namespace F64

variable {F : Type} [F64 F]

def isNan (value : F) : Bool := exact value = .nan

def min (left right : F) : F := if exact right < exact left then right else left

def max (left right : F) : F := if exact left < exact right then right else left

end F64

/-- The hardware's own cells: a 64-bit pattern read as IEEE 754 binary64. -/
instance : F64 UInt64 where
  exact := Exact.ofBits
  toBits bits := bits
  ofBits bits := bits
  zero := 0
  nan := 0x7ff8000000000000

instance : LawfulBits UInt64 := ⟨fun _ => rfl⟩

end TallyDB
