import ValueStorage.Slots

/-!
Pools of constants. A pool holds at most 256 values, so one byte says which of them is meant. It
only ever grows, and a value keeps its index for good.
-/
namespace ValueStorage

structure Pool where
  constants : Slots

namespace Pool

def most : Nat := 256

def empty (config : SlotsConfig) : Pool := ⟨.empty config⟩

def size (p : Pool) : Nat := p.constants.size

def isEmpty (p : Pool) : Bool := p.constants.isEmpty

def indexByte (index : Nat) : Except Fault UInt8 :=
  if index < UInt8.size then .ok index.toUInt8 else .error (.poolFull most)

/-- Appends a constant and answers with its index. That the pool is full is found before its slots
are asked for room. -/
def add (p : Pool) (v : Value) : Outcome Pool UInt8 :=
  if most ≤ p.size then .refuse p (.poolFull most)
  else
    let pushed := p.constants.push v
    ⟨⟨pushed.state⟩, pushed.answer.bind indexByte, pushed.trace⟩

theorem indexByte_of_lt {index : Nat} (h : index < most) :
    indexByte index = .ok index.toUInt8 ∧ index.toUInt8.toNat = index :=
  ⟨if_pos h, UInt8.toNat_ofNat_of_lt' h⟩

theorem add_of_full {p : Pool} (h : most ≤ p.size) (v : Value) :
    p.add v = .refuse p (.poolFull most) := if_pos h

theorem add_of_room {p : Pool} (h : p.size < most) (v : Value) :
    p.add v = ⟨⟨(p.constants.push v).state⟩, (p.constants.push v).answer.bind indexByte,
      (p.constants.push v).trace⟩ := if_neg (Nat.not_le.2 h)

theorem add_cases (p : Pool) (v : Value) :
    (p.size < most ∧ (p.add v).answer = .ok p.size.toUInt8 ∧
      (p.add v).state.constants.values = p.constants.values.push v) ∨
    ∃ fault, p.add v = .refuse p fault := by
  rcases Nat.lt_or_ge p.size most with hr | hf
  · have hb : indexByte p.size = .ok p.size.toUInt8 := (indexByte_of_lt hr).1
    rcases p.constants.push_cases v with ⟨_, hp⟩ | ⟨capacity, _, _, hp⟩ | ⟨requested, _, hp⟩
    · rw [add_of_room hr, hp]
      exact .inl ⟨hr, hb, rfl⟩
    · rw [add_of_room hr, hp]
      exact .inl ⟨hr, hb, rfl⟩
    · rw [add_of_room hr, hp]
      exact .inr ⟨p.constants.config.outOfMemory requested, rfl⟩
  · exact .inr ⟨_, add_of_full hf v⟩

def get (p : Pool) (index : UInt8) : Except Fault Value := p.constants.get index.toNat

def copy (p : Pool) : Pool := ⟨p.constants.copy⟩

def dump (p : Pool) : String := p.constants.dump

def layout (p : Pool) : Layout :=
  .group "ConstantPool" .braces
    [.field "values" p.constants.layout, .field "max" (.ofNat most)]

end Pool

end ValueStorage
