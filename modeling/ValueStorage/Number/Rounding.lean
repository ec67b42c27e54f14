/-!
Rounding a quotient of natural numbers to the nearest whole number. A half goes to the even
neighbour.
-/
namespace ValueStorage

def roundHalfEven (num den : Nat) : Nat :=
  let floor := num / den
  let rest := num % den
  if 2 * rest < den then floor
  else if den < 2 * rest then floor + 1
  else floor + floor % 2

end ValueStorage
