import ValueStorage.Session.Basic

/-!
The commands on registers.
-/
namespace ValueStorage

inductive RegisterCommand where
  | bind (name : String) (v : Operand)
  | unbind (name : String)
  | read (name : String)
  | sameRef (a b : Operand)
deriving DecidableEq

namespace RegisterCommand

def run (s : Session) : RegisterCommand → Except Rejection Reply
  | bind name operand => do
    let (v, s) ← s.evaluate operand
    return (s.keep (some name) v).reply (.value v)
  | unbind name => do
    let _ ← Session.lookup s.registers name
    return { s with registers := s.registers.erase name }.reply .done
  | read name => do
    let v ← Session.lookup s.registers name
    return s.reply (.value v)
  | sameRef a b => do
    let (v, s) ← s.evaluate a
    let (w, s) ← s.evaluate b
    return s.reply (.flag (v.sameRef w))

end RegisterCommand

end ValueStorage
