/-!
Binary floating-point numbers of 64 bits, read from their bits: a sign, eleven bits of exponent and
fifty-two of fraction. A finite number is a whole significand times a power of two, and therefore
also a whole number over a power of ten, which is what its decimal texts are made from.
-/
namespace ValueStorage

structure Binary64 where
  bits : UInt64
deriving DecidableEq, Repr

namespace Binary64

/-- The weight of the one before the fraction, `2 ^ 52`. -/
def leadingOne : Nat := 0x10000000000000

def isNegative (x : Binary64) : Bool := 0x8000000000000000 ≤ x.bits.toNat

def exponentField (x : Binary64) : Nat := x.bits.toNat / leadingOne % 2048

def fraction (x : Binary64) : Nat := x.bits.toNat % leadingOne

def isNaN (x : Binary64) : Bool := x.exponentField = 2047 ∧ x.fraction ≠ 0

def isInfinite (x : Binary64) : Bool := x.exponentField = 2047 ∧ x.fraction = 0

def isFinite (x : Binary64) : Bool := x.exponentField ≠ 2047

/-- The significand: a leading one stands before the fraction, except in subnormal numbers. -/
def significand (x : Binary64) : Nat :=
  if x.exponentField = 0 then x.fraction else leadingOne + x.fraction

/-- The power of two that the significand counts, plus 1074. Subnormal numbers share the lowest. -/
def level (x : Binary64) : Nat := max x.exponentField 1 - 1

def places (x : Binary64) : Nat := 1074 - x.level

def unit (x : Binary64) : Nat := Nat.pow 5 x.places * Nat.pow 2 (x.level - 1074)

/-- The magnitude of a finite number, over `10 ^ places`. Nothing is rounded, because a power of
two below one is a power of five over a power of ten. -/
def magnitude (x : Binary64) : Nat := x.significand * x.unit

end Binary64

end ValueStorage
