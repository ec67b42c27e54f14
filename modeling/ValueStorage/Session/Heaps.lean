import ValueStorage.Session.Basic

/-!
The commands on the heaps of a session. Every object made on a heap takes a new identity, so none is
ever used twice. A value is freed out of a register, which still holds it afterwards.
-/
namespace ValueStorage

inductive HeapCommand where
  | new (limit : Option Nat) (trace : Bool)
  | copy (under : String)
  | allocString (contents : StringObject) (into : Option String)
  | allocObject (contents : Object) (into : Option String)
  | free (register : String)
deriving DecidableEq

namespace HeapCommand

def allocated {α : Type} (s : Session) (name : String) (into : Option String)
    (wrap : Handle α → Value) (o : Outcome Heap (Handle α)) : Reply :=
  let s := s.bindHeap name o.state
  s.settle o fun made =>
    ({ s with nextIdentity := s.nextIdentity + 1 }.keep into (wrap made), .value (wrap made))

def freed (s : Session) (name : String) (o : Outcome Heap Bool) : Reply :=
  let s := s.bindHeap name o.state
  s.settle o fun live => (s, .flag live)

def run (s : Session) (name : String) : HeapCommand → Except Rejection Reply
  | new limit trace =>
    let heap : Heap := { limit, trace }
    return (s.bindHeap name heap).reply .done
  | copy under => do
    let heap ← Session.lookup s.heaps name
    return (s.bindHeap under heap).reply (.heap heap)
  | allocString contents into => do
    let heap ← Session.lookup s.heaps name
    return allocated s name into .str (heap.allocString s.nextIdentity contents)
  | allocObject contents into => do
    let heap ← Session.lookup s.heaps name
    return allocated s name into .obj (heap.allocObject s.nextIdentity contents)
  | free register => do
    let v ← Session.lookup s.registers register
    let heap ← Session.lookup s.heaps name
    match v with
    | .str handle => return freed s name (heap.freeString handle)
    | .obj handle => return freed s name (heap.freeObject handle)
    | v => throw (.notReference v)

end HeapCommand

end ValueStorage
