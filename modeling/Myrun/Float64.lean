import Myrun.Text

namespace Myrun

/-!
# Binary64 numbers

Configuration documents may contain numbers that are not 64-bit integers, and
sizes such as `1.5g` are computed in floating point.  A number is kept as its
bit pattern, so that comparison, truncation and the saturating integer casts of
the source language are ordinary functions on the decoded fields.

Reading and printing decimal text, conversion from an integer and
multiplication are operations of the language and its hardware; they enter as
the operations of the class `F64Ops`.
-/

/-- An IEEE 754 binary64 value, as its bit pattern. -/
structure F64 where
  bits : BitVec 64
  deriving Repr, DecidableEq

namespace F64

/-- The sign bit. -/
def negative (f : F64) : Bool :=
  f.bits.msb

/-- The biased exponent field. -/
def exponent (f : F64) : Nat :=
  f.bits.toNat / 2 ^ 52 % 2 ^ 11

/-- The fraction field. -/
def fraction (f : F64) : Nat :=
  f.bits.toNat % 2 ^ 52

/-- `f64::is_nan`. -/
def isNan (f : F64) : Bool :=
  f.exponent = 2047 && f.fraction ≠ 0

/-- `f64::is_finite`. -/
def isFinite (f : F64) : Bool :=
  f.exponent ≠ 2047

/-- Either of the two zeros. -/
def isZero (f : F64) : Bool :=
  f.exponent = 0 && f.fraction = 0

/-- The significand, with the hidden bit of normal numbers. -/
def significand (f : F64) : Nat :=
  if f.exponent = 0 then f.fraction else 2 ^ 52 + f.fraction

/-- Power of two by which the significand is scaled, offset by 1075. -/
def scale (f : F64) : Nat :=
  if f.exponent = 0 then 1 else f.exponent

/-- Magnitude of a finite number, rounded towards zero. -/
def truncated (f : F64) : Nat :=
  if 1075 ≤ f.scale then f.significand * 2 ^ (f.scale - 1075)
  else f.significand / 2 ^ (1075 - f.scale)

/-- `f >= 0.0`. -/
def nonNegative (f : F64) : Bool :=
  !f.isNan && (!f.negative || f.isZero)

/-- `f > 0.0`. -/
def positive (f : F64) : Bool :=
  !f.isNan && !f.negative && !f.isZero

/-- `f < 0.0`. -/
def isBelowZero (f : F64) : Bool :=
  !f.isNan && f.negative && !f.isZero

/-- `f > 1024.0`; positive patterns are ordered like the values they denote. -/
def exceeds1024 (f : F64) : Bool :=
  !f.isNan && !f.negative && 0x4090000000000000 < f.bits.toNat

/-- `f as u64`: truncating and saturating, `NaN` becomes zero. -/
def asU64 (f : F64) : UInt64 :=
  if f.isNan || f.negative then 0
  else if f.isFinite then UInt64.ofNat (min f.truncated (2 ^ 64 - 1))
  else UInt64.ofNat (2 ^ 64 - 1)

/-- `f as i64`: truncating and saturating, `NaN` becomes zero. -/
def asI64 (f : F64) : Int64 :=
  if f.isNan then 0
  else if f.negative then
    if f.isFinite then Int64.ofInt (-(min f.truncated (2 ^ 63) : Nat))
    else Int64.ofInt (-2 ^ 63)
  else if f.isFinite then Int64.ofInt (min f.truncated (2 ^ 63 - 1) : Nat)
  else Int64.ofInt (2 ^ 63 - 1)

/-- `1.0`. -/
def one : F64 := ⟨0x3FF0000000000000⟩

/-- `1.5`. -/
def oneAndAHalf : F64 := ⟨0x3FF8000000000000⟩

/-- `2^63`, the least positive number outside the signed 64-bit range. -/
def twoPow63 : F64 := ⟨0x43E0000000000000⟩

example : one.asU64 = 1 ∧ oneAndAHalf.asU64 = 1 := by decide

example :
    twoPow63.asU64 = 9223372036854775808 ∧
      twoPow63.asI64 = 9223372036854775807 := by decide

end F64

/--
Operations on binary64 numbers that the source takes from its language:
decimal text in both directions, `as f64` from an integer, `*` and `round`.
-/
class F64Ops where
  parse : List Char → Option F64
  display : F64 → List Char
  ofI64 : Int64 → F64
  mul : F64 → F64 → F64
  ofU64 : UInt64 → F64
  round : F64 → F64

/-- Binary64 operations as they are on the number one and its text. -/
@[reducible] def unitOps : F64Ops where
  parse := fun cs => if cs = ['1'] then some F64.one else none
  display := fun _ => ['1']
  ofI64 := fun _ => F64.one
  mul := fun a _ => a
  ofU64 := fun _ => F64.one
  round := fun a => a

end Myrun
