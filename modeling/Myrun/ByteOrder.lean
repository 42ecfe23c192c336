import Mathlib.Data.List.Basic
import Mathlib.Tactic.Ring

namespace Myrun

/-!
# Words as bytes

An unsigned word of any width as a list of bytes, in the order of the machine.
This module is independent of any particular format.
-/

/-- The order in which a machine stores the bytes of a word. -/
inductive ByteOrder where
  | little
  | big
  deriving Repr, DecidableEq

namespace ByteOrder

/-- The low bytes of a number, least significant first. -/
def digits : Nat → Nat → List UInt8
  | 0, _ => []
  | width + 1, n => .ofNat n :: digits width (n / 256)

/-- The number with the given bytes, least significant first. -/
def value : List UInt8 → Nat
  | [] => 0
  | byte :: rest => byte.toNat + 256 * value rest

/-- From the least significant byte first to the order of the machine. -/
def arrange : ByteOrder → List UInt8 → List UInt8
  | little, bytes => bytes
  | big, bytes => bytes.reverse

/-- `to_ne_bytes` of a word of `width` bytes. -/
def toBytes (order : ByteOrder) (width n : Nat) : List UInt8 :=
  order.arrange (digits width n)

/-- `from_ne_bytes`. -/
def fromBytes (order : ByteOrder) (bytes : List UInt8) : Nat :=
  value (order.arrange bytes)

@[simp] theorem arrange_arrange
    (order : ByteOrder)
    (bytes : List UInt8) :
    order.arrange (order.arrange bytes) = bytes := by
  cases order with
  | little =>
      rfl
  | big =>
      exact List.reverse_reverse bytes

@[simp] theorem length_arrange
    (order : ByteOrder)
    (bytes : List UInt8) :
    (order.arrange bytes).length = bytes.length := by
  cases order with
  | little =>
      rfl
  | big =>
      exact List.length_reverse

@[simp] theorem length_digits
    (width n : Nat) :
    (digits width n).length = width := by
  induction width generalizing n with
  | zero =>
      rfl
  | succ width inductionHypothesis =>
      simp [digits, inductionHypothesis]

@[simp] theorem length_toBytes
    (order : ByteOrder)
    (width n : Nat) :
    (order.toBytes width n).length = width := by
  simp [toBytes]

theorem value_digits
    {width n : Nat}
    (fits : n < 256 ^ width) :
    value (digits width n) = n := by
  induction width generalizing n with
  | zero =>
      simp only [Nat.pow_zero, Nat.lt_one_iff] at fits
      exact fits.symm
  | succ width inductionHypothesis =>
      have quotient : n / 256 < 256 ^ width := by
        rw [Nat.div_lt_iff_lt_mul (by decide), ← pow_succ]
        exact fits
      simp only [digits, value, inductionHypothesis quotient,
        UInt8.toNat_ofNat']
      omega

/-- A word that fits its width is read back. -/
theorem fromBytes_toBytes
    (order : ByteOrder)
    {width n : Nat}
    (fits : n < 256 ^ width) :
    order.fromBytes (order.toBytes width n) = n := by
  simp only [fromBytes, toBytes, arrange_arrange, value_digits fits]

/-- Two bytes of a word of 16 bits. -/
theorem toBytes_two
    (order : ByteOrder)
    (n : Nat) :
    ∃ first second, order.toBytes 2 n = [first, second] :=
  List.length_eq_two.mp (order.length_toBytes 2 n)

end ByteOrder

end Myrun
