import ValueStorage.Session.Basic

/-!
The commands on the arrays of a session. An operand is evaluated before the array is looked up, and
a value that a command brings to light can be kept in a register.
-/
namespace ValueStorage

inductive ArrayCommand where
  | new (config : SlotsConfig)
  | create (count capacity : Nat) (config : SlotsConfig)
  | push (v : Operand)
  | pushInts (first : Int64) (count : Nat)
  | get (index : Nat) (into : Option String)
  | set (index : Nat) (v : Operand) (into : Option String)
  | pop (into : Option String)
  | peek (into : Option String)
  | clear
  | read
  | sameCounters (other : String)
  | copy (under : String)
  | dispose
deriving DecidableEq

namespace ArrayCommand

structure Progress where
  slots : Slots
  pushed : Nat
  capacities : Array Nat
  trace : Array TraceEvent

def Progress.start (s : Slots) : Progress := ⟨s, 0, #[s.capacity], #[]⟩

def Progress.advance (p : Progress) (o : Outcome Slots Nat) : Progress where
  slots := o.state
  pushed := if o.answer.isOk then p.pushed + 1 else p.pushed
  capacities :=
    if o.state.capacity = p.slots.capacity then p.capacities
    else p.capacities.push o.state.capacity
  trace := p.trace ++ o.trace

def Progress.pushInts (p : Progress) (n : Int64) : Nat → Progress × Option Fault
  | 0 => (p, none)
  | left + 1 =>
    let outcome := p.slots.push (.int n)
    match outcome.answer with
    | .error fault => (p.advance outcome, some fault)
    | .ok _ => (p.advance outcome).pushInts (n + 1) left

def Progress.series (p : Progress) (stopped : Option Fault) : PushSeries :=
  ⟨p.pushed, p.capacities.toList, stopped⟩

def run (s : Session) (name : String) : ArrayCommand → Except Rejection Reply
  | new config => return (s.bindArray name (.empty config)).reply (.array (.empty config))
  | create count capacity config =>
    match Slots.create count capacity config with
    | .error fault => return s.refuse fault
    | .ok (array, trace) => return ⟨s.bindArray name array, .ok (.array array), trace⟩
  | push operand => do
    let (v, s) ← s.evaluate operand
    let array ← Session.lookup s.arrays name
    let pushed := array.push v
    let s := s.bindArray name pushed.state
    return s.settle pushed fun index => (s, .index index)
  | pushInts first count => do
    let array ← Session.lookup s.arrays name
    let (progress, stopped) := (Progress.start array).pushInts first count
    return ⟨s.bindArray name progress.slots, .ok (.pushes (progress.series stopped)),
      progress.trace.toList⟩
  | get index into => do
    let array ← Session.lookup s.arrays name
    match array.get index with
    | .error fault => return s.refuse fault
    | .ok v => return (s.keep into v).reply (.value v)
  | set index operand into => do
    let (v, s) ← s.evaluate operand
    let array ← Session.lookup s.arrays name
    let changed := array.set index v
    let s := s.bindArray name changed.state
    return s.settle changed fun previous => (s.keep into previous, .value previous)
  | pop into => do
    let array ← Session.lookup s.arrays name
    let popped := array.pop
    let s := s.bindArray name popped.state
    return s.settle popped fun last => (s.keep into last, .value last)
  | peek into => do
    let array ← Session.lookup s.arrays name
    match array.peek with
    | .error fault => return s.refuse fault
    | .ok last => return (s.keep into last).reply (.value last)
  | clear => do
    let array ← Session.lookup s.arrays name
    return (s.bindArray name array.clear).reply .done
  | read => do
    let array ← Session.lookup s.arrays name
    return s.reply (.array array)
  | sameCounters other => do
    let a ← Session.lookup s.arrays name
    let b ← Session.lookup s.arrays other
    return s.reply (.flag (a.counters = b.counters))
  | copy under => do
    let array ← Session.lookup s.arrays name
    return (s.bindArray under array.copy).reply (.array array.copy)
  | dispose => do
    let array ← Session.lookup s.arrays name
    return ⟨{ s with arrays := s.arrays.erase name }, .ok .done, array.dispose⟩

end ArrayCommand

end ValueStorage
