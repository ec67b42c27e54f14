import ValueStorage.Session.Basic

/-!
The commands on the pools of a session. An operand is evaluated before the pool is looked up.
-/
namespace ValueStorage

inductive PoolCommand where
  | new (config : SlotsConfig)
  | add (v : Operand)
  | addInts (first : Int64) (count : Nat)
  | get (index : UInt8) (into : Option String)
  | read
  | copyConstants (under : String)
  | copy (under : String)
deriving DecidableEq

namespace PoolCommand

structure Progress where
  pool : Pool
  indices : Array UInt8
  trace : Array TraceEvent

def Progress.start (p : Pool) : Progress := ⟨p, #[], #[]⟩

def Progress.advance (p : Progress) (o : Outcome Pool UInt8) : Progress :=
  ⟨o.state, p.indices ++ o.answer.toOption.toArray, p.trace ++ o.trace⟩

def Progress.addInts (p : Progress) (n : Int64) : Nat → Progress × Option Fault
  | 0 => (p, none)
  | left + 1 =>
    let outcome := p.pool.add (.int n)
    match outcome.answer with
    | .error fault => (p.advance outcome, some fault)
    | .ok _ => (p.advance outcome).addInts (n + 1) left

def Progress.series (p : Progress) (stopped : Option Fault) : AddSeries :=
  ⟨p.indices.toList, stopped⟩

def run (s : Session) (name : String) : PoolCommand → Except Rejection Reply
  | new config => return (s.bindPool name (.empty config)).reply (.pool (.empty config))
  | add operand => do
    let (v, s) ← s.evaluate operand
    let pool ← Session.lookup s.pools name
    let added := pool.add v
    let s := s.bindPool name added.state
    return s.settle added fun index => (s, .index index.toNat)
  | addInts first count => do
    let pool ← Session.lookup s.pools name
    let (progress, stopped) := (Progress.start pool).addInts first count
    return ⟨s.bindPool name progress.pool, .ok (.additions (progress.series stopped)),
      progress.trace.toList⟩
  | get index into => do
    let pool ← Session.lookup s.pools name
    match pool.get index with
    | .error fault => return s.refuse fault
    | .ok v => return (s.keep into v).reply (.value v)
  | read => do
    let pool ← Session.lookup s.pools name
    return s.reply (.pool pool)
  | copyConstants under => do
    let pool ← Session.lookup s.pools name
    return (s.bindArray under pool.constants.copy).reply .done
  | copy under => do
    let pool ← Session.lookup s.pools name
    return (s.bindPool under pool.copy).reply (.pool pool.copy)

end PoolCommand

end ValueStorage
