import Std.Data.TreeMap
import ValueStorage.Heap
import ValueStorage.Pool

/-!
A session holds values, arrays, pools and heaps under names, and hands out the identities of the
objects made in it. Binding a name again replaces what it stood for.
-/
namespace ValueStorage

abbrev Names (α : Type) := Std.TreeMap String α

structure Session where
  registers : Names Value := {}
  arrays : Names Slots := {}
  pools : Names Pool := {}
  heaps : Names Heap := {}
  /-- The identity of the next object. All smaller ones are taken. -/
  nextIdentity : Nat := 0

inductive Rejection where
  | unbound (name : String)
  | notReference (v : Value)
deriving DecidableEq

inductive Operand where
  | literal (l : Literal)
  | register (name : String)
deriving DecidableEq

/-- How far a series of pushes got: how many succeeded, the capacity before the first and then each
new one, and the fault that ended the series early. -/
structure PushSeries where
  pushed : Nat
  capacities : List Nat
  stopped : Option Fault
deriving DecidableEq, Repr

structure AddSeries where
  indices : List UInt8
  stopped : Option Fault
deriving DecidableEq, Repr

inductive Answer where
  | done
  | flag (b : Bool)
  | index (n : Nat)
  | value (v : Value)
  | array (s : Slots)
  | pool (p : Pool)
  | heap (h : Heap)
  | pushes (r : PushSeries)
  | additions (r : AddSeries)

structure Reply where
  session : Session
  answer : Except Fault Answer
  trace : List TraceEvent

namespace Session

def lookup {α : Type} (names : Names α) (name : String) : Except Rejection α :=
  match names[name]? with
  | some x => .ok x
  | none => .error (.unbound name)

/-- The value of an operand. A literal takes a new identity, so that no object made before has it. -/
def evaluate (s : Session) : Operand → Except Rejection (Value × Session)
  | .literal l => .ok (l.make s.nextIdentity, { s with nextIdentity := s.nextIdentity + 1 })
  | .register name => (lookup s.registers name).map (·, s)

def keep (s : Session) (into : Option String) (v : Value) : Session :=
  match into with
  | none => s
  | some name => { s with registers := s.registers.insert name v }

def bindArray (s : Session) (name : String) (array : Slots) : Session :=
  { s with arrays := s.arrays.insert name array }

def bindPool (s : Session) (name : String) (pool : Pool) : Session :=
  { s with pools := s.pools.insert name pool }

def bindHeap (s : Session) (name : String) (heap : Heap) : Session :=
  { s with heaps := s.heaps.insert name heap }

def reply (s : Session) (answer : Answer) : Reply := ⟨s, .ok answer, []⟩

def refuse (s : Session) (fault : Fault) : Reply := ⟨s, .error fault, []⟩

def settle {σ α : Type} (s : Session) (o : Outcome σ α) (finish : α → Session × Answer) : Reply :=
  match o.answer with
  | .error fault => ⟨s, .error fault, o.trace⟩
  | .ok a => ⟨(finish a).1, .ok (finish a).2, o.trace⟩

end Session

end ValueStorage
