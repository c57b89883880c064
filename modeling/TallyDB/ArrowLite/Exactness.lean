import TallyDB.ArrowLite.Rounding

/-!
# Cells and the numbers they hold

Two doubles that hold the same number are the same bits, apart from the zeros and the NaNs.
-/

namespace TallyDB

/-- Each number but zero has one cell. -/
class LawfulValues (F : Type) [F64 F] : Prop where
  nan : F64.exact (F64.nan : F) = .nan
  zero : F64.exact (F64.zero : F) = .finite 0
  injective : ∀ x y : F, F64.exact x = F64.exact y → F64.exact x ≠ .nan →
    F64.exact x ≠ .finite 0 → x = y

namespace Exact

theorem magnitude_injective : Function.Injective magnitude := by
  intro a b same
  rw [magnitude_eq, magnitude_eq, div_left_inj' (by positivity)] at same
  exact (strictMono_nat_of_lt_succ halfUnits_lt_succ).injective (by exact_mod_cast same)

theorem ofBits_infinite {bits : UInt64} : (ofBits bits = .posInf → bits.toNat = 2047 * 2 ^ 52) ∧
    (ofBits bits = .negInf → bits.toNat = 2 ^ 63 + 2047 * 2 ^ 52) := by
  have bound := bits.toNat_lt
  unfold ofBits
  simp only
  split
  · split
    · split
      · refine ⟨fun _ => by omega, fun other => ?_⟩
        cases other
      · refine ⟨fun other => ?_, fun _ => by omega⟩
        cases other
    · refine ⟨fun other => ?_, fun other => ?_⟩ <;> cases other
  · split <;> refine ⟨fun other => ?_, fun other => ?_⟩ <;> cases other

theorem ofBits_injective {x y : UInt64} (same : ofBits x = ofBits y) (number : ofBits x ≠ .nan)
    (some : ofBits x ≠ .finite 0) : x = y := by
  apply UInt64.toNat_inj.mp
  cases own : ofBits x with
  | nan => exact absurd own number
  | posInf => rw [ofBits_infinite.1 own, ofBits_infinite.1 (same ▸ own)]
  | negInf => rw [ofBits_infinite.2 own, ofBits_infinite.2 (same ▸ own)]
  | finite q =>
    have left := ofBits_finite own
    have right := ofBits_finite (same ▸ own)
    have nonzero : q ≠ 0 := by
      intro zero
      rw [own, zero] at some
      exact some rfl
    have above := magnitude_nonneg (x.toNat % 2 ^ 63)
    have above' := magnitude_nonneg (y.toNat % 2 ^ 63)
    have bound := x.toNat_lt
    have bound' := y.toNat_lt
    by_cases sign : x.toNat / 2 ^ 63 = 0 <;> by_cases sign' : y.toNat / 2 ^ 63 = 0
    · rw [if_pos sign, one_mul] at left
      rw [if_pos sign', one_mul] at right
      have magnitudes := magnitude_injective (left.symm.trans right)
      omega
    · rw [if_pos sign, one_mul] at left
      rw [if_neg sign', neg_one_mul] at right
      exact absurd (by linarith) nonzero
    · rw [if_neg sign, neg_one_mul] at left
      rw [if_pos sign', one_mul] at right
      exact absurd (by linarith) nonzero
    · rw [if_neg sign, neg_one_mul] at left
      rw [if_neg sign', neg_one_mul] at right
      have magnitudes := magnitude_injective (neg_injective (left.symm.trans right))
      omega

theorem finite_short {bits : UInt64} {q : ℚ} (finite_ : ofBits bits = .finite q) :
    bits.toNat % 2 ^ 63 < 2047 * 2 ^ 52 := by
  have bound := bits.toNat_lt
  by_contra long
  have exponent : bits.toNat / 2 ^ 52 % 2 ^ 11 = 2047 := by omega
  unfold ofBits at finite_
  simp only [exponent, if_true] at finite_
  split at finite_
  · split at finite_ <;> cases finite_
  · cases finite_

theorem ofBits_flip {bits : UInt64} {q : ℚ} (finite_ : ofBits bits = .finite q) : ofBits
      (bits ^^^ 0x8000000000000000) = .finite (-q) := by
  have bound := bits.toNat_lt
  have short := finite_short finite_
  have low : (bits.toNat ^^^ 2 ^ 63) % 2 ^ 63 = bits.toNat % 2 ^ 63 := by
    rw [Nat.xor_mod_two_pow, Nat.mod_self, Nat.xor_zero]
  have high : (bits.toNat ^^^ 2 ^ 63) / 2 ^ 63 = bits.toNat / 2 ^ 63 ^^^ 1 := by
    rw [Nat.xor_div_two_pow, Nat.div_self (by norm_num)]
  have flipped : (bits ^^^ 0x8000000000000000).toNat = bits.toNat ^^^ 2 ^ 63 := UInt64.toNat_xor _ _
  have value := ofBits_finite finite_
  have sign : bits.toNat / 2 ^ 63 = 0 ∨ bits.toNat / 2 ^ 63 = 1 := by omega
  have signed := @ofBits_signed (bits.toNat % 2 ^ 63) (decide (bits.toNat / 2 ^ 63 = 0)) short
  have whole : bits ^^^ 0x8000000000000000 =
      UInt64.ofNat (bits.toNat % 2 ^ 63 + if decide (bits.toNat / 2 ^ 63 = 0) = true then 2 ^
        63 else 0) := by
    apply UInt64.toNat_inj.mp
    rw [flipped, UInt64.toNat_ofNat']
    rcases sign with zero | one
    · rw [zero] at high ⊢
      have : (0 : Nat) ^^^ 1 = 1 := rfl
      simp only [decide_true, if_true]
      omega
    · rw [one] at high ⊢
      have : (1 : Nat) ^^^ 1 = 0 := rfl
      simp only [one_ne_zero, decide_false, Bool.false_eq_true, if_false]
      omega
  rw [whole, signed, value]
  by_cases zero : bits.toNat / 2 ^ 63 = 0
  · rw [if_pos (decide_eq_true zero), if_pos zero, one_mul, neg_one_mul]
  · rw [if_neg (by rwa [decide_eq_true_iff]), if_neg zero, one_mul, neg_one_mul, neg_neg]

/-- The doubles stay below the numbers that are rounded to an infinity. -/
theorem ofBits_limit {bits : UInt64} {q : ℚ} (finite_ : ofBits bits = .finite q) : |q| < limit := by
  have short := finite_short finite_
  have positive := magnitude_nonneg (bits.toNat % 2 ^ 63)
  have size : |q| = magnitude (bits.toNat % 2 ^ 63) := by
    rw [ofBits_finite finite_]
    split
    · rw [one_mul, abs_of_nonneg positive]
    · rw [neg_one_mul, abs_neg, abs_of_nonneg positive]
  have most := (strictMono_nat_of_lt_succ halfUnits_lt_succ).monotone (Nat.le_pred_of_lt short)
  have top : halfUnits (2047 * 2 ^ 52 - 1) < (2 ^ 54 - 1) * 2 ^ 970 * 2 ^ 1075 := by decide +kernel
  rw [size, magnitude_eq, div_lt_iff₀ (by positivity), limit_eq]
  have whole : ((2 ^ 54 - 1 : ℕ) : ℚ) = 2 ^ 54 - 1 := by norm_num
  have grown := (@Nat.cast_lt ℚ _ _ _ _ _).mpr (most.trans_lt top)
  rwa [Nat.cast_mul, Nat.cast_mul, Nat.cast_pow, Nat.cast_pow, whole, Nat.cast_ofNat] at grown

end Exact

instance : LawfulValues UInt64 where
  nan := by decide
  zero := by decide +kernel
  injective _ _ same number some := Exact.ofBits_injective same number some

end TallyDB
