/-!
Decimal numbers as whole digits times a power of ten, and their two written forms. The positional
form shows the units and at least one decimal place; the scientific form puts one digit before the
point and the power of ten behind an `e`.
-/
namespace ValueStorage

/-- The number `digits * 10 ^ exponent`. -/
structure Decimal where
  digits : Nat
  exponent : Int
deriving DecidableEq, Repr

namespace Decimal

/-- The whole number `n`, over `10 ^ places`, with a point before its last `places` digits. Zeros
fill the front until one digit stands before the point. -/
def pointed (places n : Nat) : String :=
  let written := (Nat.toDigits 10 n).leftpad (places + 1) '0'
  let front := written.length - places
  String.ofList (written.take front ++ '.' :: written.drop front)

def positional (d : Decimal) : String :=
  if d.exponent < 0 then pointed d.exponent.natAbs d.digits
  else pointed 1 (d.digits * Nat.pow 10 (d.exponent.natAbs + 1))

def scientific (d : Decimal) : String :=
  match Nat.toDigits 10 d.digits with
  | [] => ""
  | first :: rest =>
    let mantissa := if rest.isEmpty then [first] else first :: '.' :: rest
    String.ofList mantissa ++ "e" ++ toString (d.exponent + rest.length)

end Decimal

end ValueStorage
