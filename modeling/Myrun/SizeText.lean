import Myrun.Binary64
import Myrun.Config

namespace Myrun

/-!
# What a numeral and a size ask for

A numeral that is not an integer of 64 bits becomes a binary64 number, and
`parse_size` computes with them. The number a numeral stands for is its decimal
value, that of a size its number times its unit, exactly; this module says which
of them the computation gets right.
-/

/-! ## Decimal numbers -/

/-- Digits with an optional decimal point. -/
def mantissaValue (cs : List Char) : Option ℚ :=
  let (whole, fraction) := (splitOnceChars '.' cs).getD (cs, [])
  (parseDigits (whole ++ fraction)).map fun n =>
    (n : ℚ) / 10 ^ fraction.length

/-- Digits with an optional sign. -/
def exponentValue : List Char → Option ℤ
  | '-' :: ds => (parseDigits ds).map fun n => -(n : ℤ)
  | '+' :: ds => (parseDigits ds).map fun n => (n : ℤ)
  | ds => (parseDigits ds).map fun n => (n : ℤ)

/-- A decimal number without a sign, perhaps with an exponent. -/
def unsignedValue (cs : List Char) : Option ℚ :=
  match splitOnceChars 'e' cs with
  | some (mantissa, exponent) => do
      let m ← mantissaValue mantissa
      let e ← exponentValue exponent
      return m * 10 ^ e
  | none => mantissaValue cs

/-- The number a lower-case decimal text stands for. -/
def decimalValue : List Char → Option ℚ
  | '-' :: cs => (unsignedValue cs).map fun q => -q
  | '+' :: cs => unsignedValue cs
  | cs => unsignedValue cs

/-- A rational number that is a natural number. -/
def wholeNumber (q : ℚ) : Option Nat :=
  if 0 ≤ q ∧ q.den = 1 then some q.num.toNat else none

private theorem wholeNumber_eq_some
    {q : ℚ}
    {n : Nat}
    (whole : wholeNumber q = some n) :
    q = n := by
  unfold wholeNumber at whole
  split at whole
  · rename_i shape
    obtain ⟨nonneg, integral⟩ := shape
    have numerator : (q.num.toNat : ℤ) = q.num :=
      Int.toNat_of_nonneg (Rat.num_nonneg.mpr nonneg)
    have same : q = q.num := by
      rw [← Rat.num_div_den q, integral]
      simp
    rw [same, ← Option.some.inj whole]
    exact_mod_cast numerator.symm
  · cases whole

/-- The natural number that a numeral asks for. -/
def numeralAsked (digits : List Char) : Option Nat :=
  (decimalValue (digits.map asciiLower)).bind wholeNumber

example : numeralAsked "9007199254740993.0".toList = some (2 ^ 53 + 1) := by
  decide +kernel

/-- The number of bytes a size asks for, if it is a whole number of them. -/
def sizeAsked (s : String) : Option Nat :=
  let (number, unit) := splitSize (toAsciiLowercase (trim s)) sizeSuffixes
  (decimalValue (trimChars number.toList)).bind fun q =>
    wholeNumber (q * unit.toNat)

example : sizeAsked "0.5g" = some 536870912 := by decide +kernel

example : sizeAsked "0.3k" = none := by decide +kernel

/-! ## What the computation makes of it -/

/-- A binary64 number closest to a number that is not negative. -/
structure Nearest (q : ℚ) (f : F64) : Prop where
  finite : f.isFinite = true
  nonNegative : f.nonNegative = true
  closest : ∀ g : F64, g.isFinite = true → g.nonNegative = true →
    |f.magnitude - q| ≤ |g.magnitude - q|

/-- What the language guarantees of the two steps: the text is rounded to a
nearest number, and the product with the unit is exact. -/
structure SizeArithmetic [F64Ops] (number : List Char) (unit : UInt64) :
    Prop where
  reads : ∀ f q, F64Ops.parse number = some f →
    decimalValue number = some q → 0 ≤ q → q ≤ 2 ^ 64 → Nearest q f
  product : ∀ f, F64Ops.parse number = some f → f.isFinite = true →
    f.nonNegative = true → f.magnitude ≤ 2 ^ 64 →
      (F64Ops.mul f (F64Ops.ofU64 unit)).isFinite = true ∧
        (F64Ops.mul f (F64Ops.ofU64 unit)).nonNegative = true ∧
        (F64Ops.mul f (F64Ops.ofU64 unit)).magnitude =
          f.magnitude * unit.toNat

/-- The numbers of bytes that come out as they are. -/
def Computable (n : Nat) : Prop :=
  n < 2 ^ 64 ∧ (FewBits n ∨ n = 2 ^ 64 - 1)

private theorem not_fewBits_before_last : ¬ FewBits (2 ^ 64 - 2) := by
  rintro ⟨a, e, small, same⟩
  rcases Nat.lt_or_ge e 2 with few | many
  · have : a * 2 ^ e ≤ a * 2 ^ 1 :=
      Nat.mul_le_mul_left a (Nat.pow_le_pow_right (by decide) (by omega))
    omega
  · have divides : 2 ^ 2 ∣ a * 2 ^ e :=
      Dvd.dvd.mul_left (Nat.pow_dvd_pow 2 many) a
    rw [← same] at divides
    revert divides
    decide

/-- A nearest number is not above a bound that is a binary64 number. -/
theorem Nearest.le_bound
    {q : ℚ}
    {f : F64}
    (near : Nearest q f)
    (bound : q ≤ 2 ^ 64) :
    f.magnitude ≤ 2 ^ 64 := by
  obtain ⟨g, finite, nonNegative, value⟩ :=
    F64.exists_magnitude (n := 2 ^ 64) (j := 0) ⟨1, 64, by decide, by decide⟩
      le_rfl (by decide)
  have top : g.magnitude = 2 ^ 64 := by
    rw [value]
    norm_num
  have closest := near.closest g finite nonNegative
  rw [top, abs_of_nonneg (sub_nonneg.mpr bound)] at closest
  have below := (abs_le.mp closest).2
  linarith

/-- The cast of a multiple of the nearest number is what was asked for exactly
on the numbers with few digits, and on the largest one. -/
theorem Nearest.asU64_eq_iff
    {q : ℚ}
    {f p : F64}
    {j n : Nat}
    (near : Nearest q f)
    (small : j ≤ 30)
    (finite : p.isFinite = true)
    (nonNegative : p.nonNegative = true)
    (value : p.magnitude = f.magnitude * 2 ^ j)
    (asked : q * 2 ^ j = n)
    (range : n < 2 ^ 64) :
    p.asU64.toNat = n ↔ FewBits n ∨ n = 2 ^ 64 - 1 := by
  have positive : (0 : ℚ) < 2 ^ j := by positivity
  have quotient : q = n / 2 ^ j := by
    rw [eq_div_iff positive.ne', asked]
  rw [F64.asU64_toNat finite nonNegative]
  constructor
  · intro same
    rcases Nat.le_total p.truncated (2 ^ 64 - 1) with inside | above
    · rw [Nat.min_eq_left inside] at same
      exact .inl (same ▸ p.truncated_fewBits)
    · rw [Nat.min_eq_right above] at same
      exact .inr same.symm
  · rintro (few | rfl)
    · obtain ⟨g, gFinite, gNonNegative, same⟩ :=
        F64.exists_magnitude few range.le small
      have closest := near.closest g gFinite gNonNegative
      rw [same, ← quotient, sub_self, abs_zero] at closest
      have exact_ : f.magnitude = q :=
        sub_eq_zero.mp (abs_eq_zero.mp (le_antisymm closest (abs_nonneg _)))
      have truncated : p.truncated = n :=
        F64.truncated_eq (by rw [value, exact_, asked])
      omega
    · -- the nearest number is `2^64` over the unit, and the cast saturates
      obtain ⟨g, gFinite, gNonNegative, same⟩ :=
        F64.exists_magnitude (n := 2 ^ 64) ⟨1, 64, by decide, by decide⟩ le_rfl
          small
      have closest := near.closest g gFinite gNonNegative
      have step : |p.magnitude - (2 ^ 64 - 1)| ≤ 1 := by
        have scaled : |f.magnitude - q| * 2 ^ j ≤ |g.magnitude - q| * 2 ^ j :=
          mul_le_mul_of_nonneg_right closest positive.le
        have left : |f.magnitude - q| * 2 ^ j =
            |p.magnitude - (2 ^ 64 - 1)| := by
          rw [← abs_of_pos positive, ← abs_mul, sub_mul, ← value, asked]
          norm_num
        have right : |g.magnitude - q| * 2 ^ j = 1 := by
          rw [← abs_of_pos positive, ← abs_mul, sub_mul, asked, same,
            div_mul_cancel₀ _ positive.ne']
          norm_num
        rwa [left, right] at scaled
      obtain ⟨low, high⟩ := abs_le.mp step
      have large : 2 ^ 53 ≤ p.magnitude := by
        norm_num at low ⊢
        linarith
      have truncated := F64.magnitude_of_ge large
      rw [truncated] at low
      have atLeast : 2 ^ 64 - 1 ≤ p.truncated + 1 := by
        have cast : (18446744073709551615 : ℚ) ≤ p.truncated + 1 := by
          linarith
        exact_mod_cast cast
      have other : p.truncated ≠ 2 ^ 64 - 2 := fun same =>
        not_fewBits_before_last (same ▸ p.truncated_fewBits)
      omega

/-- A numeral that is read as a binary64 number: the text is rounded to a nearest
number. -/
def NumeralReads [F64Ops] (digits : List Char) : Prop :=
  ∀ f q, F64Ops.parse digits = some f →
    decimalValue (digits.map asciiLower) = some q → 0 ≤ q → q ≤ 2 ^ 64 →
      Nearest q f

/-- Such a numeral becomes a limit of the number that it asks for exactly if
that can be computed. -/
theorem numeral_exact_iff [F64Ops]
    {digits : List Char}
    {f : F64}
    {n : Nat}
    (reads : NumeralReads digits)
    (parsed : F64Ops.parse digits = some f)
    (asked : numeralAsked digits = some n) :
    (Json.float f).asU64.map UInt64.toNat = some n ↔ Computable n := by
  obtain ⟨q, meant, whole⟩ := Option.bind_eq_some_iff.mp asked
  obtain rfl := wholeNumber_eq_some whole
  rw [Json.asU64]
  constructor
  · intro same
    split at same
    · rename_i nonNegative
      have value : f.asU64.toNat = n := Option.some.inj same
      have range : n < 2 ^ 64 := value ▸ f.asU64.toNat_lt
      have near := reads f n parsed meant n.cast_nonneg
        (by exact_mod_cast range.le)
      exact ⟨range, (near.asU64_eq_iff (Nat.zero_le 30) near.finite nonNegative
        (by simp) (by simp) range).mp value⟩
    · cases same
  · rintro ⟨range, shape⟩
    have near := reads f n parsed meant n.cast_nonneg
      (by exact_mod_cast range.le)
    rw [if_pos near.nonNegative, Option.map_some]
    exact congrArg some ((near.asU64_eq_iff (Nat.zero_le 30) near.finite
      near.nonNegative (by simp) (by simp) range).mpr shape)

/-- The product is what was asked for exactly on the numbers with few digits,
and on the largest one. -/
theorem product_exact_iff [F64Ops]
    {number : List Char}
    {unit : UInt64}
    {j n : Nat}
    (power : unit.toNat = 2 ^ j)
    (small : j ≤ 30)
    (arithmetic : SizeArithmetic number unit)
    {f : F64}
    {q : ℚ}
    (parsed : F64Ops.parse number = some f)
    (meant : decimalValue number = some q)
    (asked : q * unit.toNat = n)
    (range : n < 2 ^ 64) :
    (F64Ops.mul f (F64Ops.ofU64 unit)).asU64.toNat = n ↔
      FewBits n ∨ n = 2 ^ 64 - 1 := by
  have positive : (0 : ℚ) < 2 ^ j := by positivity
  have atLeastOne : (1 : ℚ) ≤ 2 ^ j := one_le_pow₀ (by norm_num)
  have asked' : q * 2 ^ j = n := by
    rw [← asked, power]
    norm_cast
  have nonneg : 0 ≤ q := by
    rw [eq_div_of_mul_eq positive.ne' asked']
    positivity
  have bound : q ≤ 2 ^ 64 :=
    calc
      q ≤ q * 2 ^ j := le_mul_of_one_le_right nonneg atLeastOne
      _ ≤ 2 ^ 64 := asked' ▸ by exact_mod_cast range.le
  have near := arithmetic.reads f q parsed meant nonneg bound
  obtain ⟨finite, nonNegative, value⟩ :=
    arithmetic.product f parsed near.finite near.nonNegative
      (near.le_bound bound)
  refine near.asU64_eq_iff small finite nonNegative ?_ asked' range
  rw [value, power]
  norm_cast

/-- The units are powers of two. -/
theorem splitSize_power
    (t : String) :
    ∃ j ≤ 30, (splitSize t sizeSuffixes).2.toNat = 2 ^ j := by
  have rows : ∀ row ∈ sizeSuffixes, ∃ j ≤ 30, row.2.toNat = 2 ^ j := by
    simp only [sizeSuffixes, List.forall_mem_cons]
    refine ⟨⟨10, ?_⟩, ⟨20, ?_⟩, ⟨30, ?_⟩, ⟨10, ?_⟩, ⟨20, ?_⟩, ⟨30, ?_⟩,
      ⟨10, ?_⟩, ⟨20, ?_⟩, ⟨30, ?_⟩, ⟨0, ?_⟩, by simp⟩ <;> decide
  generalize sizeSuffixes = table at rows
  induction table with
  | nil =>
      exact ⟨0, by decide, rfl⟩
  | cons row rest inductionHypothesis =>
      obtain ⟨suffix, mult⟩ := row
      rw [splitSize]
      cases stripTrailing suffix t with
      | some number =>
          exact rows (suffix, mult) List.mem_cons_self
      | none =>
          exact inductionHypothesis fun row member =>
            rows row (List.mem_cons_of_mem _ member)

/-- The arithmetic of the number and the unit of a size. -/
def SizeReads [F64Ops] (s : String) : Prop :=
  SizeArithmetic
    (trimChars (splitSize (toAsciiLowercase (trim s)) sizeSuffixes).1.toList)
    (splitSize (toAsciiLowercase (trim s)) sizeSuffixes).2

/-- A size is its number times its unit, in floating point. -/
theorem parseSize_some [F64Ops]
    {s : String}
    {x : UInt64}
    (parsed : parseSize s = .ok (some x)) :
    ∃ f,
      F64Ops.parse (trimChars (splitSize (toAsciiLowercase (trim s))
        sizeSuffixes).1.toList) = some f ∧
      x = (F64Ops.mul f (F64Ops.ofU64 (splitSize (toAsciiLowercase (trim s))
        sizeSuffixes).2)).asU64 := by
  unfold parseSize at parsed
  simp only at parsed
  split at parsed
  · cases parsed
  split at parsed
  · cases parsed
  split at parsed
  · cases parsed
  · rename_i f text
    split at parsed
    · cases parsed
    · exact ⟨f, text, (Option.some.inj (Except.ok.inj parsed)).symm⟩

/-- A size is read as what it asks for exactly if that can be computed. -/
theorem parseSize_exact_iff [F64Ops]
    {s : String}
    {x : UInt64}
    {n : Nat}
    (reads : SizeReads s)
    (parsed : parseSize s = .ok (some x))
    (asked : sizeAsked s = some n) :
    x.toNat = n ↔ Computable n := by
  have range : x.toNat < 2 ^ 64 := x.toNat_lt
  obtain ⟨j, small, power⟩ := splitSize_power (toAsciiLowercase (trim s))
  obtain ⟨f, text, rfl⟩ := parseSize_some parsed
  unfold SizeReads at reads
  unfold sizeAsked at asked
  generalize splitSize (toAsciiLowercase (trim s)) sizeSuffixes = parts at *
  obtain ⟨q, meant, whole⟩ := Option.bind_eq_some_iff.mp asked
  have product := wholeNumber_eq_some whole
  constructor
  · intro same
    have below : n < 2 ^ 64 := same ▸ range
    exact ⟨below,
      (product_exact_iff power small reads text meant product below).mp same⟩
  · rintro ⟨below, shape⟩
    exact (product_exact_iff power small reads text meant product
      below).mpr shape

end Myrun
