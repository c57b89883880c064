import Mathlib.Tactic.FieldSimp
import Mathlib.Tactic.NormNum
import Mathlib.Tactic.Positivity
import TallyDB.ArrowLite.Arithmetic

/-!
# Rounding to doubles

No double is nearer to a number than its rounding, and the numbers that are rounded to an
infinity are those from `limit` on. So the rounding of an integer passes over no double.
-/

namespace TallyDB

/-- Rounding an integer to a float passes over no float. -/
class LawfulRounding (F : Type) [F64Arith F] : Prop where
  below : ∀ (v : Int64) (x : F), F64.exact x < F64.exact (F64Arith.ofInt64 v : F) →
    F64.exact x < .finite v.toInt
  above : ∀ (v : Int64) (x : F), F64.exact (F64Arith.ofInt64 v : F) < F64.exact x →
    .finite v.toInt < F64.exact x

namespace Exact

/-! ### Magnitudes -/

/-- The number that the bits below the sign mean, for an exponent short of the infinities. -/
def magnitude (bits : Nat) : ℚ :=
  if bits / 2 ^ 52 = 0 then (bits : ℚ) / 2 ^ 1074
  else ((2 ^ 52 + bits % 2 ^ 52 : Nat) : ℚ) * 2 ^ (bits / 2 ^ 52) / 2 ^ 1075

theorem magnitude_nonneg (bits : Nat) : 0 ≤ magnitude bits := by
  unfold magnitude
  split <;> positivity

theorem ofBits_finite {bits : UInt64} {q : ℚ} (finite_ : ofBits bits = .finite q) :
    q = (if bits.toNat / 2 ^ 63 = 0 then 1 else -1) * magnitude (bits.toNat % 2 ^ 63) := by
  have exponent : bits.toNat % 2 ^ 63 / 2 ^ 52 = bits.toNat / 2 ^ 52 % 2 ^ 11 := by omega
  have fraction : bits.toNat % 2 ^ 63 % 2 ^ 52 = bits.toNat % 2 ^ 52 := by omega
  unfold ofBits at finite_
  simp only at finite_
  unfold magnitude
  rw [exponent, fraction]
  split at finite_
  · split at finite_
    · split at finite_ <;> cases finite_
    · cases finite_
  · split at finite_
    · next zero =>
      rw [if_pos zero, ← finite.inj finite_, show bits.toNat % 2 ^ 63 = bits.toNat % 2 ^ 52 by
          omega, mul_div_assoc]
    · next some => rw [if_neg some, ← finite.inj finite_, mul_assoc, mul_div_assoc]

def halfUnits (bits : Nat) : Nat :=
  if bits / 2 ^ 52 = 0 then 2 * bits else (2 ^ 52 + bits % 2 ^ 52) * 2 ^ (bits / 2 ^ 52)

theorem magnitude_eq (bits : Nat) : magnitude bits = halfUnits bits / 2 ^ 1075 := by
  unfold magnitude halfUnits
  split
  · push_cast
    rw [show (2 : ℚ) ^ 1075 = 2 * 2 ^ 1074 from pow_succ' 2 1074, mul_div_mul_left _ _ (by norm_num)]
  · push_cast
    rfl

theorem halfUnits_lt_succ (bits : Nat) : halfUnits bits < halfUnits (bits + 1) := by
  unfold halfUnits
  by_cases small : bits / 2 ^ 52 = 0
  · rw [if_pos small]
    split
    · omega
    · next large =>
      have exponent : (bits + 1) / 2 ^ 52 = 1 := by omega
      rw [exponent]
      omega
  · rw [if_neg small, if_neg (by omega)]
    have positive : 0 < 2 ^ (bits / 2 ^ 52) := Nat.two_pow_pos _
    by_cases same : (bits + 1) / 2 ^ 52 = bits / 2 ^ 52
    · rw [same]
      exact Nat.mul_lt_mul_of_pos_right (by omega) positive
    · have exponent : (bits + 1) / 2 ^ 52 = bits / 2 ^ 52 + 1 := by omega
      have fraction : (bits + 1) % 2 ^ 52 = 0 := by omega
      rw [exponent, fraction, Nat.add_zero, pow_succ 2 (bits / 2 ^ 52)]
      generalize 2 ^ (bits / 2 ^ 52) = unit at positive
      have below : bits % 2 ^ 52 < 2 ^ 52 := Nat.mod_lt _ (by norm_num)
      calc (2 ^ 52 + bits % 2 ^ 52) * unit
        _ < (2 ^ 52 + 2 ^ 52) * unit := Nat.mul_lt_mul_of_pos_right (by omega) positive
        _ = 2 ^ 52 * (unit * 2) := by ring

theorem ofBits_signed {bits : Nat} {negative : Bool} (short : bits < 2047 * 2 ^ 52) :
    ofBits (UInt64.ofNat (bits + if negative then 2 ^ 63 else 0)) = .finite
      ((if negative then -1 else 1) * magnitude bits) := by
  have whole : (UInt64.ofNat (bits + if negative then 2 ^ 63 else 0)).toNat = bits +
      if negative then 2 ^ 63 else 0 := by
    rw [UInt64.toNat_ofNat', Nat.mod_eq_of_lt]
    split <;> omega
  have sign : (bits + if negative then 2 ^ 63 else 0) / 2 ^ 63 = if negative then 1 else 0 := by
    split <;> omega
  have exponent : (bits + if negative then 2 ^ 63 else 0) / 2 ^ 52 % 2 ^ 11 = bits / 2 ^ 52 := by
    split <;> omega
  have fraction : (bits + if negative then 2 ^ 63 else 0) % 2 ^ 52 = bits % 2 ^ 52 := by split <;> omega
  unfold ofBits
  simp only [whole, sign, exponent, fraction]
  rw [if_neg (by omega)]
  unfold magnitude
  split
  · next zero =>
    rw [show bits % 2 ^ 52 = bits by omega, mul_div_assoc]
    cases negative <;> simp
  · rw [mul_assoc, mul_div_assoc]
    cases negative <;> simp

/-! ### Steps -/

/-- The distance of neighbouring doubles from `2 ^ 52` times it up to twice that. -/
def step (k : Nat) : ℚ := 2 ^ k / 2 ^ 1074

theorem step_pos (k : Nat) : 0 < step k := by
  unfold step
  positivity

theorem step_whole (k : Nat) : step (1074 + k) = 2 ^ k := by
  rw [step, pow_add, mul_div_cancel_left₀ _ (by positivity)]

/-- From where a step is used on, the doubles are multiples of it. -/
theorem magnitude_steps {bits k : Nat} (above : k = 0 ∨ 2 ^ 52 * step k ≤ magnitude bits) :
    ∃ steps : Nat, magnitude bits = steps * step k := by
  have dvd : 2 ^ (k + 1) ∣ halfUnits bits := by
    have reached : k = 0 ∨ 2 ^ 52 * 2 ^ (k + 1) ≤ halfUnits bits := by
      refine above.imp_right fun least => ?_
      rw [magnitude_eq, step, le_div_iff₀ (by positivity), pow_succ 2 1074] at least
      have whole : (2 : ℚ) ^ 52 * 2 ^ (k + 1) ≤ halfUnits bits := by
        refine le_trans (le_of_eq ?_) least
        field_simp
        exact pow_succ' 2 k
      exact_mod_cast whole
    unfold halfUnits at reached ⊢
    split
    · next zero =>
      rw [if_pos zero] at reached
      rcases reached with rfl | reached
      · exact ⟨bits, by ring⟩
      · have : 2 ^ 1 ≤ 2 ^ (k + 1) := Nat.pow_le_pow_right (by norm_num) (by omega)
        omega
    · next some =>
      rw [if_neg some] at reached
      have far : k + 1 ≤ bits / 2 ^ 52 := by
        rcases reached with rfl | reached
        · omega
        · have short : (2 ^ 52 + bits % 2 ^ 52) * 2 ^ (bits / 2 ^ 52) < 2 ^ 53 * 2 ^ (bits / 2 ^ 52) :=
            Nat.mul_lt_mul_of_pos_right (by omega) (Nat.two_pow_pos _)
          have grown := reached.trans_lt short
          rw [← pow_add, ← pow_add] at grown
          have := (Nat.pow_lt_pow_iff_right (by norm_num)).mp grown
          omega
      exact (pow_dvd_pow 2 far).mul_left _
  obtain ⟨steps, same⟩ := dvd
  refine ⟨steps, ?_⟩
  rw [magnitude_eq, same, step]
  push_cast
  rw [pow_succ, pow_succ 2 1074]
  field_simp

theorem magnitude_counted {k m : Nat} (most : m ≤ 2 ^ 53) (least : k = 0 ∨ 2 ^ 52 ≤ m) : magnitude
      (k * 2 ^ 52 + m) = m * step k := by
  unfold magnitude step
  rcases (show m < 2 ^ 52 ∨ 2 ^ 52 ≤ m ∧ m < 2 ^ 53 ∨ m = 2 ^ 53 by
      omega) with small | ⟨low, high⟩ | rfl
  · obtain rfl := least.resolve_right (by omega)
    rw [if_pos (by omega), Nat.zero_mul, Nat.zero_add, pow_zero, mul_one_div]
  · rw [if_neg (by omega), show (k * 2 ^ 52 + m) / 2 ^ 52 = k + 1 by
        omega, show 2 ^ 52 + (k * 2 ^ 52 + m) % 2 ^ 52 = m by omega,
      pow_succ, pow_succ 2 1074]
    field_simp
  · rw [if_neg (by omega), show (k * 2 ^ 52 + 2 ^ 53) / 2 ^ 52 = k + 2 by omega,
      show 2 ^ 52 + (k * 2 ^ 52 + 2 ^ 53) % 2 ^ 52 = 2 ^ 52 by omega, pow_add, pow_succ 2 1074]
    push_cast
    field_simp
    norm_num

/-! ### The nearest integer -/

theorem roundEven_near (q : ℚ) : (roundEven q : ℚ) ≤ q + 1 / 2 ∧ q ≤ roundEven q + 1 / 2 := by
  have low := Int.floor_le q
  have high := Int.lt_floor_add_one q
  unfold roundEven
  dsimp only
  split
  · next less => constructor <;> linarith
  · split
    · push_cast
      constructor <;> linarith
    · split
      · constructor <;> linarith
      · push_cast
        constructor <;> linarith

/-- No integer is nearer than the rounding. -/
theorem roundEven_nearest (q : ℚ) (n : ℤ) : |(roundEven q : ℚ) - q| ≤ |(n : ℚ) - q| := by
  obtain ⟨upper, lower⟩ := roundEven_near q
  rcases lt_trichotomy n (roundEven q) with less | rfl | more
  · have apart : (n : ℚ) + 1 ≤ roundEven q := by exact_mod_cast less
    rw [abs_le, abs_of_nonpos (by linarith)]
    constructor <;> linarith
  · exact le_refl _
  · have apart : (roundEven q : ℚ) + 1 ≤ n := by exact_mod_cast more
    rw [abs_le, abs_of_nonneg (by linarith)]
    constructor <;> linarith

/-- A number is rounded up to an even one from half below it on. -/
theorem roundEven_reaches {q : ℚ} {n : ℤ} (even : n % 2 = 0) : n ≤ roundEven q ↔
    (n : ℚ) - 1 / 2 ≤ q := by
  obtain ⟨upper, lower⟩ := roundEven_near q
  constructor
  · intro reached
    have : (n : ℚ) ≤ roundEven q := by exact_mod_cast reached
    linarith
  · intro reached
    have low := Int.floor_le q
    have high := Int.lt_floor_add_one q
    have near : n - 1 ≤ ⌊q⌋ := Int.le_floor.mpr (by push_cast; linarith)
    rcases near.eq_or_lt with same | more
    · have value : (⌊q⌋ : ℚ) = n - 1 := by rw [← same]; push_cast; ring
      unfold roundEven
      dsimp only
      rw [if_neg (by rw [value]; linarith)]
      split
      · omega
      · rw [if_neg (by omega)]
        omega
    · unfold roundEven
      dsimp only
      split_ifs <;> omega

/-! ### The step that a number is rounded to -/

theorem exponent_spec {q : ℚ} (positive : 0 < q) : (2 : ℚ) ^ exponent q ≤ q ∧
    q < 2 ^ (exponent q + 1) := by
  have num : (q.num.natAbs : ℚ) = q.num := by
    rw [Nat.cast_natAbs, abs_of_pos (Rat.num_pos.mpr positive)]
  have some : q.num.natAbs ≠ 0 := Int.natAbs_ne_zero.mpr (Rat.num_pos.mpr positive).ne'
  have whole : (q.num.natAbs : ℚ) = q * q.den := by rw [num, Rat.mul_den_eq_num]
  have low : (2 : ℚ) ^ q.num.natAbs.log2 ≤ q.num.natAbs := by exact_mod_cast Nat.log2_self_le some
  have high : (q.num.natAbs : ℚ) < 2 ^ (q.num.natAbs.log2 + 1) := by exact_mod_cast Nat.lt_log2_self
  have low' : (2 : ℚ) ^ q.den.log2 ≤ q.den := by exact_mod_cast Nat.log2_self_le q.den_pos.ne'
  have high' : (q.den : ℚ) < 2 ^ (q.den.log2 + 1) := by exact_mod_cast Nat.lt_log2_self
  have above : (2 : ℚ) ^ ((q.num.natAbs.log2 : ℤ) - q.den.log2 - 1) ≤ q := by
    rw [sub_sub, zpow_sub₀ (by norm_num), div_le_iff₀ (zpow_pos (by norm_num) _), zpow_natCast]
    refine (low.trans whole.le).trans (mul_le_mul_of_nonneg_left ?_ positive.le)
    exact_mod_cast high'.le
  have below : q < 2 ^ ((q.num.natAbs.log2 : ℤ) - q.den.log2 + 1) := by
    rw [sub_add_eq_add_sub, zpow_sub₀ (by norm_num),
      lt_div_iff₀ (zpow_pos (by norm_num) _), zpow_natCast]
    refine (mul_le_mul_of_nonneg_left low' positive.le).trans_lt (whole.symm.trans_lt ?_)
    exact_mod_cast high
  unfold exponent
  dsimp only
  split
  · next less => exact ⟨above, by rwa [sub_add_cancel]⟩
  · next reached => exact ⟨not_lt.mp reached, below⟩

/-- The place of the step that a number is rounded to. -/
def place (q : ℚ) : Nat := (max (exponent q) (-1022) + 1022).toNat

theorem step_place (q : ℚ) : (2 : ℚ) ^ (max (exponent q) (-1022) - 52) = step (place q) := by
  have whole : max (exponent q) (-1022) - 52 = (place q : ℤ) - (1074 : ℕ) := by
    unfold place
    omega
  rw [whole, zpow_sub₀ (by norm_num), zpow_natCast, zpow_natCast, step]

theorem place_spec {q : ℚ} (positive : 0 < q) : q < 2 ^ 53 * step (place q) ∧
    (place q = 0 ∨ 2 ^ 52 * step (place q) ≤ q) := by
  obtain ⟨low, high⟩ := exponent_spec positive
  rw [← step_place]
  have scaled (n : ℕ) (e : ℤ) : (2 : ℚ) ^ n * 2 ^ (e - 52) = 2 ^ (e + (n - 52)) := by
    rw [← zpow_natCast, ← zpow_add₀ (by norm_num)]
    congr 1
    ring
  rw [scaled, scaled]
  constructor
  · refine high.trans_le (zpow_le_zpow_right₀ (by norm_num) ?_)
    have := le_max_left (exponent q) (-1022)
    push_cast
    omega
  · unfold place
    rcases le_or_gt (exponent q) (-1022) with small | large
    · left
      rw [max_eq_right small]
      rfl
    · right
      rw [max_eq_left large.le]
      refine le_trans (zpow_le_zpow_right₀ (by norm_num) ?_) low
      push_cast
      omega

theorem magnitudeBits_counted {q : ℚ} (positive : 0 < q) : ∃ m : Nat, (m : ℤ) = roundEven
      (q / step (place q)) ∧ m ≤ 2 ^ 53 ∧
    (place q = 0 ∨ 2 ^ 52 ≤ m) ∧ magnitudeBits q = min (place q * 2 ^ 52 + m) (2047 * 2 ^ 52) := by
  have size := step_pos (place q)
  obtain ⟨high, low⟩ := place_spec positive
  obtain ⟨upper, lower⟩ := roundEven_near (q / step (place q))
  have short : q / step (place q) < 2 ^ 53 := (div_lt_iff₀ size).mpr high
  have some : 0 ≤ q / step (place q) := (div_pos positive size).le
  have nonneg : 0 ≤ roundEven (q / step (place q)) :=
    (@roundEven_reaches _ 0 rfl).mpr (by push_cast; linarith)
  have most : roundEven (q / step (place q)) ≤ 2 ^ 53 := by
    have : (roundEven (q / step (place q)) : ℚ) < 2 ^ 53 + 1 := by linarith
    have : roundEven (q / step (place q)) < 2 ^ 53 + 1 := by exact_mod_cast this
    omega
  have least : place q = 0 ∨ 2 ^ 52 ≤ roundEven (q / step (place q)) := low.imp_right fun low => by
    refine (@roundEven_reaches _ (2 ^ 52) (by norm_num)).mpr ?_
    have := (le_div_iff₀ size).mpr low
    push_cast
    linarith
  obtain ⟨m, same⟩ := Int.eq_ofNat_of_zero_le nonneg
  refine ⟨m, same.symm, by omega, least.imp_right fun least => by omega, ?_⟩
  unfold magnitudeBits
  rw [if_neg positive.ne']
  dsimp only
  rw [step_place, same]
  congr 1
  unfold place
  have := le_max_right (exponent q) (-1022)
  omega

/-! ### Roundings -/

/-- The numbers from here on are rounded to an infinity. -/
def limit : ℚ := 2 ^ 1024 - 2 ^ 970

theorem limit_eq : limit = (2 ^ 54 - 1) * 2 ^ 970 := by
  rw [limit, show 1024 = 54 + 970 from rfl, pow_add, sub_mul, one_mul]

theorem limit_pos : 0 < limit := by
  rw [limit_eq]
  exact mul_pos (by norm_num) (by positivity)

theorem magnitudeBits_short_iff {q : ℚ} (nonneg : 0 ≤ q) : magnitudeBits q < 2047 * 2 ^ 52 ↔
    q < limit := by
  rcases nonneg.eq_or_lt with rfl | positive
  · exact iff_of_true (by decide) limit_pos
  obtain ⟨m, rounded, most, least, bits⟩ := magnitudeBits_counted positive
  obtain ⟨high, low⟩ := place_spec positive
  rw [bits, min_lt_iff, or_iff_left (lt_irrefl _)]
  have mono {k k' : Nat} (le : k ≤ k') : step k ≤ step k' := by
    unfold step
    exact div_le_div_of_nonneg_right (pow_le_pow_right₀ (by norm_num) le) (by positivity)
  rcases lt_trichotomy (place q) 2045 with less | same | more
  · refine iff_of_true (by omega) (high.trans_le ?_)
    refine (mul_le_mul_of_nonneg_left (mono (Nat.le_of_lt_succ less)) (by positivity)).trans ?_
    rw [show 2044 = 1074 + 970 from rfl, step_whole, limit_eq]
    exact mul_le_mul_of_nonneg_right (by norm_num) (by positivity)
  · rw [same] at rounded ⊢
    have unit : step 2045 = 2 ^ 971 := step_whole 971
    have reaches := @roundEven_reaches (q / step 2045) (2 ^ 53) (by norm_num)
    rw [← rounded, unit, le_div_iff₀ (by positivity)] at reaches
    have : 2045 * 2 ^ 52 + m < 2047 * 2 ^ 52 ↔ ¬ (2 : ℤ) ^ 53 ≤ m := by omega
    rw [this, reaches, not_le]
    have half : ((2 ^ 53 : ℤ) - 1 / 2 : ℚ) * 2 ^ 971 = limit := by
      rw [limit_eq, show 971 = 1 + 970 from rfl, pow_add, ← mul_assoc]
      congr 1
      norm_num
    rw [half]
  · refine iff_of_false (by omega) (not_lt.mpr ?_)
    refine le_trans ?_ (low.resolve_left (by omega))
    refine le_trans ?_ (mul_le_mul_of_nonneg_left (mono (show 2046 ≤ place q from more)) (by
        positivity))
    rw [show 2046 = 1074 + 972 from rfl, step_whole, ← pow_add]
    exact sub_le_self _ (by positivity)

/-- No magnitude of a double is nearer than the rounding. -/
theorem magnitudeBits_nearest {q : ℚ} (nonneg : 0 ≤ q) (small : q < limit) (bits : Nat) :
    |magnitude (magnitudeBits q) - q| ≤ |magnitude bits - q| := by
  have short := (magnitudeBits_short_iff nonneg).mpr small
  rcases nonneg.eq_or_lt with rfl | positive
  · have zero : magnitude (magnitudeBits 0) = 0 := by simp [magnitudeBits, magnitude]
    rw [zero, sub_zero, abs_zero]
    exact abs_nonneg _
  obtain ⟨m, rounded, most, least, counted⟩ := magnitudeBits_counted positive
  rw [counted, min_lt_iff, or_iff_left (lt_irrefl _)] at short
  have value : magnitude (magnitudeBits q) = m * step (place q) := by
    rw [counted, min_eq_left short.le, magnitude_counted most least]
  have size := step_pos (place q)
  -- Against a whole number of steps, the nearest integer decides.
  have against (n : ℤ) : |magnitude (magnitudeBits q) - q| ≤ |n * step (place q) - q| := by
    have near := roundEven_nearest (q / step (place q)) n
    have scaled (x : ℚ) : |x * step (place q) - q| = |x - q / step (place q)| * step (place q) := by
      rw [← abs_of_pos size, ← abs_mul, abs_of_pos size, sub_mul, div_mul_cancel₀ _ size.ne']
    rw [value, scaled, scaled, show (m : ℚ) = ((m : ℤ) : ℚ) from rfl, rounded]
    exact mul_le_mul_of_nonneg_right near size.le
  by_cases above : place q = 0 ∨ 2 ^ 52 * step (place q) ≤ magnitude bits
  · obtain ⟨steps, same⟩ := magnitude_steps above
    rw [same]
    exact_mod_cast against steps
  · -- A smaller double is farther than the first one with the number's step.
    rw [not_or, not_le] at above
    have first := (place_spec positive).2.resolve_left above.1
    refine (against (2 ^ 52)).trans ?_
    push_cast
    rw [abs_of_nonpos (by linarith), abs_of_nonpos (by linarith [above.2])]
    linarith [above.2]

theorem roundBits_value {q : ℚ} (small : |q| < limit) (negative : Bool) :
    ofBits (roundBits q negative) = .finite
      ((if q < 0 then -1 else 1) * magnitude (magnitudeBits |q|)) := by
  have short := (magnitudeBits_short_iff (abs_nonneg q)).mpr small
  have signed := @ofBits_signed _ (decide (q < 0 ∨ q = 0 ∧ negative = true)) short
  unfold roundBits
  simp only [decide_eq_true_eq] at signed
  rw [signed]
  by_cases zero : q = 0
  · subst zero
    simp [magnitudeBits, magnitude]
  · simp only [zero, false_and, or_false]

/-- No double is nearer to a number than its rounding. -/
theorem roundBits_nearest {q : ℚ} (small : |q| < limit) (negative : Bool) :
    ∃ r, ofBits (roundBits q negative) = .finite r ∧ ∀ bits x, ofBits bits = .finite x →
    |r - q| ≤ |x - q| := by
  refine ⟨_, roundBits_value small negative, fun bits x held => ?_⟩
  rw [ofBits_finite held]
  have near := magnitudeBits_nearest (abs_nonneg q) small
  have own := near (bits.toNat % 2 ^ 63)
  -- The sign aside, a double of the other sign is no nearer than zero.
  have zero := near 0
  have none : magnitude 0 = 0 := by simp [magnitude]
  rw [none, zero_sub, abs_neg, abs_abs] at zero
  have positive := magnitude_nonneg (bits.toNat % 2 ^ 63)
  have other : |q| ≤ magnitude (bits.toNat % 2 ^ 63) + |q| := le_add_of_nonneg_left positive
  rcases lt_or_ge q 0 with less | nonneg
  · rw [if_pos less]
    rw [abs_of_neg less] at own zero other ⊢
    have flip (m : ℚ) : |-1 * m - q| = |m - -q| := by rw [← abs_neg]; ring_nf
    rw [flip]
    split
    · rw [one_mul, abs_of_nonneg (show 0 ≤ magnitude (bits.toNat % 2 ^ 63) - q by linarith),
        sub_eq_add_neg _ q]
      exact zero.trans other
    · rwa [flip]
  · rw [if_neg (not_lt.mpr nonneg)]
    rw [abs_of_nonneg nonneg] at own zero other ⊢
    rw [one_mul]
    split
    · rwa [one_mul]
    · rw [← abs_neg (-1 * _ - q),
        abs_of_nonneg (show 0 ≤ -(-1 * magnitude (bits.toNat % 2 ^ 63) - q) by linarith)]
      exact zero.trans (other.trans (le_of_eq (by ring)))

/-- A number past the limit is rounded to an infinity. -/
theorem roundBits_overflow {q : ℚ} (large : limit ≤ |q|) (negative : Bool) :
    ofBits (roundBits q negative) = if q < 0 then .negInf else .posInf := by
  have short := (magnitudeBits_short_iff (abs_nonneg q)).not.mpr (not_lt.mpr large)
  have some : q ≠ 0 := by
    rintro rfl
    rw [abs_zero] at large
    exact absurd limit_pos (not_lt.mpr large)
  have bits : magnitudeBits |q| = 2047 * 2 ^ 52 := by
    obtain ⟨m, -, -, -, counted⟩ := magnitudeBits_counted (abs_pos.mpr some)
    omega
  unfold roundBits
  rw [bits]
  simp only [some, false_and, or_false]
  split <;> decide

/-- A double on one side of an integer's rounding lies on that side of the integer. -/
theorem between {v : Int} (small : v.natAbs ≤ 2 ^ 63) (bits : UInt64) :
    (ofBits bits < ofBits (roundBits (v : ℚ) false) → ofBits bits < .finite v) ∧
      (ofBits (roundBits (v : ℚ) false) < ofBits bits → .finite v < ofBits bits) := by
  have within : |(v : ℚ)| < limit := by
    have : |(v : ℚ)| ≤ 2 ^ 63 := by
      rw [← Int.cast_abs, Int.abs_eq_natAbs]
      exact_mod_cast small
    refine this.trans_lt ?_
    rw [limit_eq]
    exact (by norm_num : (2 : ℚ) ^ 63 < (2 ^ 54 - 1) * 2 ^ 10).trans_le
      (mul_le_mul_of_nonneg_left (pow_le_pow_right₀ (by norm_num) (by norm_num)) (by norm_num))
  obtain ⟨r, value, nearest⟩ := roundBits_nearest within false
  rw [value]
  cases held : ofBits bits with
  | nan => exact ⟨fun below => absurd below (not_lt.mpr (le_nan _)), fun _ => finite_lt_nan _⟩
  | posInf =>
    exact ⟨fun below => absurd below (not_lt.mpr (lt_iff_rank.mpr (by simp [rank])).le),
      fun _ => lt_iff_rank.mpr (by simp [rank])⟩
  | negInf =>
    have below (q : ℚ) : negInf < .finite q :=
      lt_iff_rank.mpr (WithTop.coe_lt_coe.mpr (WithTop.coe_lt_coe.mpr (WithBot.bot_lt_coe q)))
    exact ⟨fun _ => below _, fun above => absurd above (not_lt.mpr (below _).le)⟩
  | finite x =>
    simp only [finite_lt_finite]
    have near := nearest bits x held
    constructor
    · intro less
      by_contra reached
      rw [abs_of_nonneg (by linarith), abs_of_nonneg (by linarith)] at near
      linarith
    · intro more
      by_contra reached
      rw [abs_of_nonpos (by linarith), abs_of_nonpos (by linarith)] at near
      linarith

end Exact

instance : LawfulRounding UInt64 where
  below v x := (Exact.between (by have := v.toInt_lt; have := v.le_toInt; omega) x).1
  above v x := (Exact.between (by have := v.toInt_lt; have := v.le_toInt; omega) x).2

end TallyDB
