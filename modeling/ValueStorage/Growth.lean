import ValueStorage.Layout
import ValueStorage.Word

/-!
How the capacity of an array grows. A growth multiplies the capacity, is never smaller than a
minimum block, and always makes room for one more slot, so that any factor grows.
-/
namespace ValueStorage

structure GrowthPolicy where
  minimumBlock : Nat := 8
  factor : Nat := 2
deriving DecidableEq, Repr

namespace GrowthPolicy

/-- The capacity after `old`, when a machine word can hold the capacities it is made from. -/
def next? (p : GrowthPolicy) (old : Nat) : Option Nat := do
  let larger ← Word.add? old 1
  let multiplied ← Word.mul? old p.factor
  return max (max multiplied p.minimumBlock) larger

theorem next?_eq_some {p : GrowthPolicy} {old new : Nat} : p.next? old = some new ↔
    old + 1 ≤ Word.max ∧ old * p.factor ≤ Word.max ∧
      max (max (old * p.factor) p.minimumBlock) (old + 1) = new := by
  simp only [next?, Option.bind_eq_bind, Option.bind_eq_some_iff, Word.add?_eq_some,
    Word.mul?_eq_some, Option.pure_def, Option.some.injEq]
  grind

theorem lt_of_next? {p : GrowthPolicy} {old new : Nat} (h : p.next? old = some new) :
    old < new := by
  obtain ⟨_, _, rfl⟩ := next?_eq_some.1 h
  omega

def defaultNext (old : Nat) : Nat := (next? {} old).getD Word.max

def layout (p : GrowthPolicy) : Layout :=
  .group "GrowthPolicy" .braces
    [.field "minimum_block" (.ofNat p.minimumBlock), .field "factor" (.ofNat p.factor)]

end GrowthPolicy

end ValueStorage
