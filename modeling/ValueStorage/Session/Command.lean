import ValueStorage.Session.Arrays
import ValueStorage.Session.Heaps
import ValueStorage.Session.Pools
import ValueStorage.Session.Registers

/-!
All commands of a session, and the run of a whole list of them. A command that is rejected leaves
the session as it was.
-/
namespace ValueStorage

def version : String := "0.0.1"

inductive Command where
  | register (command : RegisterCommand)
  | array (name : String) (command : ArrayCommand)
  | pool (name : String) (command : PoolCommand)
  | heap (name : String) (command : HeapCommand)
deriving DecidableEq

namespace Session

def step (s : Session) : Command → Except Rejection Reply
  | .register command => command.run s
  | .array name command => command.run s name
  | .pool name command => command.run s name
  | .heap name command => command.run s name

def after (s : Session) (command : Command) : Session :=
  match s.step command with
  | .ok reply => reply.session
  | .error _ => s

def run (s : Session) (commands : List Command) : Session := commands.foldl after s

end Session

end ValueStorage
