import Mathlib.Algebra.Order.Field.Rat
import Mathlib.Tactic.FieldSimp
import Mathlib.Tactic.Linarith
import Mathlib.Tactic.NormNum
import Mathlib.Tactic.Positivity
import Mathlib.Tactic.Ring
import Myrun.Float64

namespace Myrun

/-!
# The values of binary64 numbers

The rational number a finite bit pattern stands for, which integers are among
them, and what the cast to an unsigned 64-bit integer makes of the value.
-/

/-- A number whose binary digits after the first 53 are zero. -/
def FewBits (n : Nat) : Prop :=
  ∃ a e, a < 2 ^ 53 ∧ n = a * 2 ^ e

theorem fewBits_of_lt
    {n : Nat}
    (small : n < 2 ^ 53) :
    FewBits n :=
  ⟨n, 0, small, by simp⟩

/-- The leading 53 digits of a number that has no more. -/
theorem FewBits.normalized
    {n : Nat}
    (few : FewBits n)
    (positive : 0 < n) :
    ∃ a, 2 ^ 52 ≤ a ∧ a < 2 ^ 53 ∧ a * 2 ^ n.log2 = n * 2 ^ 52 := by
  have least : 2 ^ n.log2 ≤ n := Nat.log2_self_le positive.ne'
  have bound : n < 2 ^ (n.log2 + 1) := Nat.lt_log2_self
  rcases Nat.le_total n.log2 52 with short | long
  · have split : 2 ^ 52 = 2 ^ (52 - n.log2) * 2 ^ n.log2 := by
      rw [← Nat.pow_add, Nat.sub_add_cancel short]
    refine ⟨n * 2 ^ (52 - n.log2), ?_, ?_, ?_⟩
    · calc
        2 ^ 52 = 2 ^ n.log2 * 2 ^ (52 - n.log2) := by rw [split, Nat.mul_comm]
        _ ≤ n * 2 ^ (52 - n.log2) := Nat.mul_le_mul_right _ least
    · calc
        n * 2 ^ (52 - n.log2) < 2 ^ (n.log2 + 1) * 2 ^ (52 - n.log2) :=
          Nat.mul_lt_mul_of_pos_right bound (by positivity)
        _ = 2 ^ 53 := by
          rw [← Nat.pow_add]
          congr 1
          omega
    · rw [Nat.mul_assoc, ← split]
  · obtain ⟨a, e, small, rfl⟩ := few
    generalize exponent : (a * 2 ^ e).log2 = k at *
    have enough : k - 52 ≤ e := by
      by_contra short
      have below : a * 2 ^ e < 2 ^ k := by
        calc
          a * 2 ^ e < 2 ^ 53 * 2 ^ e :=
            Nat.mul_lt_mul_of_pos_right small (by positivity)
          _ = 2 ^ (53 + e) := by rw [Nat.pow_add]
          _ ≤ 2 ^ k := Nat.pow_le_pow_right (by decide) (by omega)
      omega
    have split : a * 2 ^ e = a * 2 ^ (e - (k - 52)) * 2 ^ (k - 52) := by
      rw [Nat.mul_assoc, ← Nat.pow_add, Nat.sub_add_cancel enough]
    have whole : 2 ^ k = 2 ^ 52 * 2 ^ (k - 52) := by
      rw [← Nat.pow_add, Nat.add_sub_cancel' long]
    have cancel : 0 < 2 ^ (k - 52) := by positivity
    refine ⟨a * 2 ^ (e - (k - 52)), ?_, ?_, ?_⟩
    · refine Nat.le_of_mul_le_mul_right ?_ cancel
      rwa [← whole, ← split]
    · refine Nat.lt_of_mul_lt_mul_right (a := 2 ^ (k - 52)) ?_
      have double : 2 ^ 53 * 2 ^ (k - 52) = 2 ^ (k + 1) := by
        rw [← Nat.pow_add]
        congr 1
        omega
      rwa [double, ← split]
    · rw [split, whole]
      ring

namespace F64

/-- The magnitude of a finite number. -/
def magnitude (f : F64) : ℚ :=
  f.significand * 2 ^ ((f.scale : ℤ) - 1075)

theorem significand_lt (f : F64) : f.significand < 2 ^ 53 := by
  have bound : f.fraction < 2 ^ 52 := Nat.mod_lt _ (by decide)
  unfold significand
  split <;> omega

/-- Numbers with a large exponent are integers. -/
theorem magnitude_of_large
    {f : F64}
    (large : 1075 ≤ f.scale) :
    f.magnitude = f.truncated := by
  have power : (2 : ℚ) ^ ((f.scale : ℤ) - 1075) = 2 ^ (f.scale - 1075) := by
    rw [← zpow_natCast, Nat.cast_sub large]
    rfl
  rw [magnitude, truncated, if_pos large, power]
  norm_cast

/-- The magnitude of a number with a small exponent, as a fraction. -/
theorem magnitude_of_small
    {f : F64}
    (small : f.scale < 1075) :
    f.magnitude = (f.significand : ℚ) / (2 ^ (1075 - f.scale) : ℕ) := by
  have power :
      (2 : ℚ) ^ ((f.scale : ℤ) - 1075) = (2 ^ (1075 - f.scale) : ℚ)⁻¹ := by
    rw [← zpow_natCast, ← zpow_neg, Nat.cast_sub small.le]
    congr 1
    simp
  rw [magnitude, power, div_eq_mul_inv]
  norm_cast

/-- Truncation rounds down, by less than one. -/
theorem truncated_bounds (f : F64) :
    (f.truncated : ℚ) ≤ f.magnitude ∧ f.magnitude < f.truncated + 1 := by
  rcases Nat.lt_or_ge f.scale 1075 with small | large
  · have cut : f.truncated = f.significand / 2 ^ (1075 - f.scale) :=
      if_neg (by omega)
    have positive : (0 : ℚ) < (2 ^ (1075 - f.scale) : ℕ) := by positivity
    rw [magnitude_of_small small, cut]
    constructor
    · exact Nat.cast_div_le
    · rw [div_lt_iff₀ positive]
      have below := Nat.lt_div_mul_add
        (a := f.significand) (b := 2 ^ (1075 - f.scale)) (by positivity)
      rw [← Nat.succ_mul] at below
      exact_mod_cast below
  · rw [magnitude_of_large large]
    exact ⟨le_rfl, lt_add_one _⟩

/-- The truncated value is the only integer that close below. -/
theorem truncated_eq
    {f : F64}
    {n : Nat}
    (value : f.magnitude = n) :
    f.truncated = n := by
  obtain ⟨least, bound⟩ := f.truncated_bounds
  rw [value] at least bound
  have below : f.truncated ≤ n := by exact_mod_cast least
  have above : n < f.truncated + 1 := by exact_mod_cast bound
  omega

theorem truncated_lt_of_small
    {f : F64}
    (small : f.scale < 1075) :
    f.truncated < 2 ^ 53 := by
  have cut : f.truncated = f.significand / 2 ^ (1075 - f.scale) :=
    if_neg (by omega)
  rw [cut]
  exact lt_of_le_of_lt (Nat.div_le_self _ _) f.significand_lt

/-- Truncated values have few digits. -/
theorem truncated_fewBits (f : F64) : FewBits f.truncated := by
  rcases Nat.lt_or_ge f.scale 1075 with small | large
  · exact fewBits_of_lt (truncated_lt_of_small small)
  · exact ⟨f.significand, f.scale - 1075, f.significand_lt, if_pos large⟩

/-- Large numbers are integers. -/
theorem magnitude_of_ge
    {f : F64}
    (large : 2 ^ 53 ≤ f.magnitude) :
    f.magnitude = f.truncated := by
  refine magnitude_of_large (Nat.le_of_not_lt fun small => ?_)
  have bound : (f.truncated : ℚ) + 1 ≤ 2 ^ 53 := by
    exact_mod_cast truncated_lt_of_small small
  linarith [f.truncated_bounds.2]

/-- The cast of a number that is not negative. -/
theorem asU64_toNat
    {f : F64}
    (finite : f.isFinite = true)
    (nonNegative : f.nonNegative = true) :
    f.asU64.toNat = min f.truncated (2 ^ 64 - 1) := by
  have number : f.isNan = false := by
    simpa using (Bool.and_eq_true_iff.mp nonNegative).1
  unfold asU64
  rw [number, finite, Bool.false_or]
  cases sign : f.negative with
  | false =>
      simp only [Bool.false_eq_true, if_false, if_true]
      exact UInt64.toNat_ofNat_of_lt' (by
        have := Nat.min_le_right f.truncated (2 ^ 64 - 1)
        simp only [UInt64.size]
        omega)
  | true =>
      -- the negative zero
      have zero : f.isZero = true := by
        simpa [F64.nonNegative, number, sign] using nonNegative
      obtain ⟨exponent, fraction⟩ := Bool.and_eq_true_iff.mp zero
      have none_ : f.significand = 0 := by
        unfold significand
        rw [if_pos (of_decide_eq_true exponent)]
        exact of_decide_eq_true fraction
      have nothing : f.truncated = 0 := by
        unfold truncated
        split <;> simp [none_]
      simp [nothing]

/-- Every integer with few digits, divided by a small power of two, is a
binary64 number. -/
theorem exists_magnitude
    {n j : Nat}
    (few : FewBits n)
    (bound : n ≤ 2 ^ 64)
    (small : j ≤ 30) :
    ∃ g : F64, g.isFinite = true ∧ g.nonNegative = true ∧
      g.magnitude = n / 2 ^ j := by
  rcases Nat.eq_zero_or_pos n with rfl | positive
  · refine ⟨⟨0⟩, by decide, by decide, ?_⟩
    have none_ : F64.significand ⟨0⟩ = 0 := by decide
    rw [magnitude, none_]
    simp
  obtain ⟨a, least, most, leading⟩ := few.normalized positive
  have length : n.log2 ≤ 64 := by
    by_contra long
    have := Nat.log2_self_le positive.ne'
    have := Nat.pow_le_pow_right (n := 2) (by decide)
      (show 65 ≤ n.log2 by omega)
    omega
  generalize n.log2 = k at *
  let bits := (1023 + k - j) * 2 ^ 52 + (a - 2 ^ 52)
  have below : bits < 2 ^ 63 := by
    simp only [bits]
    omega
  have value : (BitVec.ofNat 64 bits).toNat = bits := by
    rw [BitVec.toNat_ofNat]
    exact Nat.mod_eq_of_lt (by omega)
  have exponent : F64.exponent ⟨BitVec.ofNat 64 bits⟩ = 1023 + k - j := by
    simp only [F64.exponent, value, bits]
    omega
  have fraction : F64.fraction ⟨BitVec.ofNat 64 bits⟩ = a - 2 ^ 52 := by
    simp only [F64.fraction, value, bits]
    omega
  have sign : F64.negative ⟨BitVec.ofNat 64 bits⟩ = false := by
    simp only [F64.negative, BitVec.msb_eq_decide, value]
    exact decide_eq_false (by omega)
  have finite : F64.isFinite ⟨BitVec.ofNat 64 bits⟩ = true := by
    simp only [F64.isFinite, exponent]
    exact decide_eq_true (by omega)
  refine ⟨⟨BitVec.ofNat 64 bits⟩, finite, ?_, ?_⟩
  · have notAll : 1023 + k - j ≠ 2047 := by omega
    simp [nonNegative, isNan, exponent, sign, notAll]
  · have significand : F64.significand ⟨BitVec.ofNat 64 bits⟩ = a := by
      rw [F64.significand, exponent, fraction, if_neg (by omega)]
      omega
    have scale : F64.scale ⟨BitVec.ofNat 64 bits⟩ = 1023 + k - j := by
      rw [F64.scale, exponent, if_neg (by omega)]
    have exact_ : (a : ℚ) * 2 ^ k = n * 2 ^ 52 := by exact_mod_cast leading
    have shifted : ((1023 + k - j : ℕ) : ℤ) - 1075 = (k : ℤ) - 52 - j := by
      omega
    rw [magnitude, significand, scale, shifted, zpow_sub₀ two_ne_zero,
      zpow_sub₀ two_ne_zero, zpow_natCast, zpow_natCast, zpow_ofNat,
      ← mul_div_assoc, ← mul_div_assoc, exact_,
      mul_div_cancel_right₀ _ (pow_ne_zero 52 two_ne_zero)]

end F64

end Myrun
