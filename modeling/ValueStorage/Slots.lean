import ValueStorage.Growth
import ValueStorage.Outcome

/-!
Growable arrays of values. An array owns `capacity` slots, of which the first hold its values. A
push into a full array first lets the capacity grow, as the policy of the array says and never
beyond its cap.
-/
namespace ValueStorage

structure SlotsConfig where
  growth : GrowthPolicy := {}
  maxCapacity : Option Nat := none
  trace : Bool := false
deriving DecidableEq, Repr

/-- How often an array has grown, and how many values it has moved in doing so. Both are machine
words, and wrap. -/
structure SlotsCounters where
  grows : UInt64 := 0
  copied : UInt64 := 0
deriving DecidableEq, Repr

/-- No array can have this many slots, `2 ^ 59`: at sixteen bytes a slot they would not fit into the
address space. -/
def slotLimit : Nat := 0x800000000000000

namespace SlotsConfig

def outOfMemory (c : SlotsConfig) (requested : Nat) : Fault :=
  .outOfMemory requested "slots" c.maxCapacity

def reported (c : SlotsConfig) (events : List TraceEvent) : List TraceEvent :=
  if c.trace then events else []

theorem reported_append (c : SlotsConfig) (first rest : List TraceEvent) :
    c.reported (first ++ rest) = c.reported first ++ c.reported rest := by
  cases h : c.trace <;> simp [reported, h]

def capped (c : SlotsConfig) (capacity : Nat) : Nat :=
  match c.maxCapacity with
  | none => capacity
  | some most => min capacity most

def reserve (c : SlotsConfig) (slots : Nat) : Except Fault Nat :=
  if slotLimit ≤ slots then .error (c.outOfMemory slots) else .ok slots

/-- The capacity that a full array of capacity `old` asks for. A cap that is not yet reached cuts
the growth short; one that is reached refuses it. -/
def askedCapacity (c : SlotsConfig) (old : Nat) : Except Fault Nat :=
  match c.growth.next? old with
  | none => .error (c.outOfMemory Word.max)
  | some wanted =>
    if c.maxCapacity.any (· ≤ old) then .error (c.outOfMemory wanted) else .ok (c.capped wanted)

def grownCapacity (c : SlotsConfig) (old : Nat) : Except Fault Nat := do
  let asked ← c.askedCapacity old
  c.reserve asked

theorem capped_le {c : SlotsConfig} {most : Nat} (h : c.maxCapacity = some most) (capacity : Nat) :
    c.capped capacity ≤ most := by
  simp only [capped, h]
  exact Nat.min_le_right capacity most

theorem capped_le_self (c : SlotsConfig) (capacity : Nat) : c.capped capacity ≤ capacity := by
  unfold capped
  split
  · exact Nat.le_refl capacity
  · exact Nat.min_le_left ..

theorem lt_capped {c : SlotsConfig} {old wanted : Nat} (hw : old < wanted)
    (hc : ∀ most, c.maxCapacity = some most → old < most) : old < c.capped wanted := by
  unfold capped
  split
  · exact hw
  · next most h => exact Nat.lt_min.2 ⟨hw, hc most h⟩

theorem reserve_eq_ok {c : SlotsConfig} {slots granted : Nat} :
    c.reserve slots = .ok granted ↔ slots < slotLimit ∧ slots = granted := by
  unfold reserve
  split <;> simp <;> omega

theorem askedCapacity_eq_ok {c : SlotsConfig} {old asked : Nat} :
    c.askedCapacity old = .ok asked ↔ ∃ wanted, c.growth.next? old = some wanted ∧
      (∀ most, c.maxCapacity = some most → old < most) ∧ c.capped wanted = asked := by
  unfold askedCapacity
  cases c.growth.next? old with
  | none => simp
  | some wanted =>
    cases c.maxCapacity with
    | none => simp
    | some most =>
      by_cases hr : most ≤ old
      · simp [hr, Nat.not_lt.2 hr]
      · simp [hr, Nat.not_le.1 hr]

theorem grownCapacity_eq_ok {c : SlotsConfig} {old new : Nat} :
    c.grownCapacity old = .ok new ↔ c.askedCapacity old = .ok new ∧ new < slotLimit := by
  unfold grownCapacity
  cases h : c.askedCapacity old with
  | error fault => simp [bind, Except.bind]
  | ok asked =>
    change c.reserve asked = .ok new ↔ _
    rw [reserve_eq_ok, Except.ok.injEq]
    grind

theorem lt_of_askedCapacity {c : SlotsConfig} {old asked : Nat}
    (h : c.askedCapacity old = .ok asked) : old < asked := by
  obtain ⟨wanted, hw, hc, rfl⟩ := askedCapacity_eq_ok.1 h
  exact lt_capped (GrowthPolicy.lt_of_next? hw) hc

theorem lt_of_grownCapacity {c : SlotsConfig} {old new : Nat}
    (h : c.grownCapacity old = .ok new) : old < new :=
  lt_of_askedCapacity (grownCapacity_eq_ok.1 h).1

theorem grownCapacity_fault {c : SlotsConfig} {old : Nat} {fault : Fault}
    (h : c.grownCapacity old = .error fault) : ∃ requested, fault = c.outOfMemory requested := by
  simp only [grownCapacity, askedCapacity, reserve] at h
  split at h
  · exact ⟨_, (Except.error.inj h).symm⟩
  · split at h
    · exact ⟨_, (Except.error.inj h).symm⟩
    · change (if _ then _ else _) = _ at h
      split at h
      · exact ⟨_, (Except.error.inj h).symm⟩
      · exact nomatch h

def layout (c : SlotsConfig) : Layout :=
  .group "ArrayConfig" .braces
    [.field "growth" c.growth.layout, .field "max_capacity" (.ofNat? c.maxCapacity),
     .field "trace" (.ofBool c.trace)]

end SlotsConfig

def SlotsCounters.layout (c : SlotsCounters) : Layout :=
  .group "ArrayStats" .braces
    [.field "grows" (.ofNat c.grows.toNat), .field "copied" (.ofNat c.copied.toNat)]

structure Slots where
  values : Array Value := #[]
  capacity : Nat := 0
  config : SlotsConfig
  counters : SlotsCounters := {}

namespace Slots

def empty (config : SlotsConfig) : Slots := { config }

/-- An array of `capacity` slots, of which the first `count` are reserved. -/
def create (count capacity : Nat) (config : SlotsConfig) :
    Except Fault (Slots × List TraceEvent) :=
  if capacity < count then .error (.invalidCapacity count capacity)
  else if config.maxCapacity.any (· < capacity) then .error (config.outOfMemory capacity)
  else (config.reserve capacity).map fun capacity =>
    ({ values := Array.replicate count .zeroed, capacity, config },
      config.reported [.create count capacity])

theorem create_eq_ok {count capacity : Nat} {config : SlotsConfig}
    {made : Slots × List TraceEvent} :
    create count capacity config = .ok made ↔ count ≤ capacity ∧
      (∀ most, config.maxCapacity = some most → capacity ≤ most) ∧ capacity < slotLimit ∧
      ({ values := Array.replicate count .zeroed, capacity, config },
        config.reported [.create count capacity]) = made := by
  unfold create SlotsConfig.reserve
  split
  · next hn => simp [Nat.not_le.2 hn]
  · next hn =>
    have hle : count ≤ capacity := Nat.not_lt.1 hn
    split
    · next hm => simp [Word.any_lt_iff.1 hm]
    · next hm =>
      have ha := Classical.not_not.1 (mt Word.any_lt_iff.2 hm)
      by_cases hl : slotLimit ≤ capacity
      · simp [hl, Except.map, Nat.not_lt.2 hl]
      · simpa [hl, hle, Except.map, Nat.not_le.1 hl] using fun _ => ha

def size (s : Slots) : Nat := s.values.size

theorem size_eq_length (s : Slots) : s.size = s.values.toList.length := Array.length_toList.symm

def isEmpty (s : Slots) : Bool := s.values.isEmpty

def moved (s : Slots) (capacity : Nat) : Slots :=
  { s with capacity, counters := ⟨s.counters.grows + 1, s.counters.copied + s.size.toUInt64⟩ }

def append (s : Slots) (v : Value) : Slots := { s with values := s.values.push v }

@[simp] theorem size_append (s : Slots) (v : Value) : (s.append v).size = s.size + 1 :=
  Array.size_push v

def grow (s : Slots) : Outcome Slots Unit :=
  match s.config.grownCapacity s.capacity with
  | .error fault => .refuse s fault
  | .ok capacity => ⟨s.moved capacity, .ok (), s.config.reported [.grow s.capacity capacity]⟩

def makeRoom (s : Slots) : Outcome Slots Unit :=
  if s.capacity < s.size + 1 then s.grow else ⟨s, .ok (), []⟩

def push (s : Slots) (v : Value) : Outcome Slots Nat :=
  s.makeRoom.andThen fun room _ =>
    ⟨room.append v, .ok s.size, room.config.reported [.write s.size v]⟩

theorem push_of_room {s : Slots} (v : Value) (h : s.size < s.capacity) :
    s.push v = ⟨s.append v, .ok s.size, s.config.reported [.write s.size v]⟩ := by
  have hr : s.makeRoom = ⟨s, .ok (), []⟩ := if_neg (by omega)
  simp [push, hr, Outcome.andThen]

theorem push_of_full {s : Slots} (v : Value) (h : s.capacity ≤ s.size) {capacity : Nat}
    (hg : s.config.grownCapacity s.capacity = .ok capacity) :
    s.push v = ⟨(s.moved capacity).append v, .ok s.size,
      s.config.reported [.grow s.capacity capacity, .write s.size v]⟩ := by
  have hr : s.makeRoom = s.grow := if_pos (by omega)
  have he := s.config.reported_append [.grow s.capacity capacity] [.write s.size v]
  simp only [push, hr, grow, hg, Outcome.andThen]
  exact congrArg _ he.symm

theorem push_of_refused {s : Slots} (v : Value) (h : s.capacity ≤ s.size) {fault : Fault}
    (hg : s.config.grownCapacity s.capacity = .error fault) : s.push v = .refuse s fault := by
  have hr : s.makeRoom = s.grow := if_pos (by omega)
  simp [push, hr, grow, hg, Outcome.andThen, Outcome.refuse]

theorem push_cases (s : Slots) (v : Value) :
    (s.size < s.capacity ∧
      s.push v = ⟨s.append v, .ok s.size, s.config.reported [.write s.size v]⟩) ∨
    (∃ capacity, s.capacity ≤ s.size ∧ s.config.grownCapacity s.capacity = .ok capacity ∧
      s.push v = ⟨(s.moved capacity).append v, .ok s.size,
        s.config.reported [.grow s.capacity capacity, .write s.size v]⟩) ∨
    ∃ requested, s.capacity ≤ s.size ∧ s.push v = .refuse s (s.config.outOfMemory requested) := by
  rcases Nat.lt_or_ge s.size s.capacity with hr | hf
  · exact .inl ⟨hr, push_of_room v hr⟩
  · cases hg : s.config.grownCapacity s.capacity with
    | ok capacity => exact .inr (.inl ⟨capacity, hf, rfl, push_of_full v hf hg⟩)
    | error fault =>
      obtain ⟨requested, rfl⟩ := SlotsConfig.grownCapacity_fault hg
      exact .inr (.inr ⟨requested, hf, push_of_refused v hf hg⟩)

def get (s : Slots) (index : Nat) : Except Fault Value :=
  match s.values[index]? with
  | some v => .ok v
  | none => .error (.indexOutOfBounds index s.size)

def set (s : Slots) (index : Nat) (v : Value) : Outcome Slots Value :=
  match s.get index with
  | .error fault => .refuse s fault
  | .ok previous => ⟨{ s with values := s.values.setIfInBounds index v }, .ok previous, []⟩

def peek (s : Slots) : Except Fault Value :=
  match s.values.back? with
  | some v => .ok v
  | none => .error .stackUnderflow

def pop (s : Slots) : Outcome Slots Value :=
  match s.peek with
  | .error fault => .refuse s fault
  | .ok last => ⟨{ s with values := s.values.pop }, .ok last, []⟩

def clear (s : Slots) : Slots := { s with values := #[] }

def copy (s : Slots) : Slots where
  values := s.values
  capacity := s.capacity
  config := s.config
  counters := s.counters

def dispose (s : Slots) : List TraceEvent := s.config.reported [.dispose s.size s.capacity]

def dump (s : Slots) : String := Value.displayAll s.values.toList

def layout (s : Slots) : Layout :=
  .group "ValueArray" .braces
    [.field "values" (.group "" .square (s.values.toList.map Value.layout)),
     .field "capacity" (.ofNat s.capacity), .field "config" s.config.layout,
     .field "stats" s.counters.layout]

end Slots

end ValueStorage
