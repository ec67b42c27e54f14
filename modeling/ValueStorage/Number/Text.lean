import ValueStorage.Number.Rounding
import ValueStorage.Number.Shortest

/-!
The two texts of a binary number. The fixed text always has six decimal places, rounded from the
exact value. The literal is the shortest that reads back: positional from 0.0001 up to but not
including 10^16, and for zero; scientific elsewhere. A minus sign shows the sign bit of every
number, zero included, but never that of a NaN.
-/
namespace ValueStorage.Binary64

def signText (x : Binary64) : String := if x.isNegative then "-" else ""

def millionths (x : Binary64) : Nat :=
  roundHalfEven (x.magnitude * 1000000) (Nat.pow 10 x.places)

def fixedText (x : Binary64) : String :=
  if x.isNaN then "nan"
  else if x.isInfinite then x.signText ++ "inf"
  else x.signText ++ Decimal.pointed 6 x.millionths

def isPositional (x : Binary64) : Bool :=
  x.significand = 0 ∨
    (Nat.pow 10 x.places ≤ x.magnitude * 10000 ∧ x.magnitude < Nat.pow 10 (x.places + 16))

def literal (x : Binary64) : String :=
  if x.isNaN then "NaN"
  else if x.isInfinite then x.signText ++ "inf"
  else x.signText ++ (if x.isPositional then x.shortest.positional else x.shortest.scientific)

end ValueStorage.Binary64
