import ValueStorage.Value.Render

/-!
What storage reports about its work when it is traced: one line of text for every event.
-/
namespace ValueStorage

inductive RefKind where
  | string
  | object
deriving DecidableEq, Repr

def RefKind.name : RefKind → String
  | string => "string"
  | object => "object"

inductive TraceEvent where
  | create (count capacity : Nat)
  | grow (before after : Nat)
  | write (index : Nat) (value : Value)
  | dispose (count capacity : Nat)
  | allocate (kind : RefKind) (bytes : Nat)
  | free (kind : RefKind) (bytes : Nat)
  | freeIgnored (kind : RefKind)
deriving DecidableEq

namespace TraceEvent

def text : TraceEvent → String
  | create count capacity =>
    "create(count = " ++ toString count ++ ", capacity = " ++ toString capacity ++ ")"
  | grow before after => "grow(capacity = " ++ toString before ++ " -> " ++ toString after ++ ")"
  | write index value => "write(index = " ++ toString index ++ ", value = " ++ value.display ++ ")"
  | dispose count capacity =>
    "dispose(count = " ++ toString count ++ ", capacity = " ++ toString capacity ++ ")"
  | allocate kind bytes => "heap alloc " ++ kind.name ++ " (" ++ toString bytes ++ " bytes)"
  | free kind bytes => "heap free " ++ kind.name ++ " (" ++ toString bytes ++ " bytes)"
  | freeIgnored kind => "heap free " ++ kind.name ++ " ignored (not live)"

def line (event : TraceEvent) : String := "[valuecore] " ++ event.text ++ "\n"

end TraceEvent

end ValueStorage
