/-!
Sizes that have to fit a 64-bit machine word. Sizes are natural numbers, so nothing wraps; the
two checked operations refuse a result that a word could not hold.
-/
namespace ValueStorage.Word

def max : Nat := 0xFFFFFFFFFFFFFFFF

def add? (a b : Nat) : Option Nat := if a + b ≤ max then some (a + b) else none

def mul? (a b : Nat) : Option Nat := if a * b ≤ max then some (a * b) else none

theorem add?_eq_some {a b c : Nat} : add? a b = some c ↔ a + b ≤ max ∧ a + b = c := by
  simp [add?]

theorem mul?_eq_some {a b c : Nat} : mul? a b = some c ↔ a * b ≤ max ∧ a * b = c := by
  simp [mul?]

theorem any_lt_iff {bound : Option Nat} {n : Nat} :
    bound.any (· < n) = true ↔ ¬ ∀ most, bound = some most → n ≤ most := by
  cases bound <;> simp

end ValueStorage.Word
