import ValueStorage.Number.Binary64
import ValueStorage.Object

/-!
Values: booleans, whole numbers of 64 bits, binary numbers, and references to strings and objects.
Copying a value copies the reference and not the object behind it.
-/
namespace ValueStorage

inductive Value where
  | bool (b : Bool)
  | int (n : Int64)
  | double (x : Binary64)
  | str (s : Handle StringObject)
  | obj (o : Handle Object)
deriving DecidableEq

namespace Value

inductive Tag where
  | bool
  | int
  | double
  | str
  | obj
deriving DecidableEq, Repr

def tag : Value → Tag
  | bool _ => .bool
  | int _ => .int
  | double _ => .double
  | str _ => .str
  | obj _ => .obj

def Tag.typeName : Tag → String
  | bool => "bool"
  | int => "int"
  | double => "double"
  | str => "string"
  | obj => "object"

def typeName (v : Value) : String := v.tag.typeName

def zeroed : Value := int 0

def isNumber (v : Value) : Bool := v.tag = .int ∨ v.tag = .double

def isReference (v : Value) : Bool := v.tag = .str ∨ v.tag = .obj

def asBool? : Value → Option Bool
  | bool b => some b
  | _ => none

def asInt? : Value → Option Int64
  | int n => some n
  | _ => none

def asDouble? : Value → Option Binary64
  | double x => some x
  | _ => none

def asString? : Value → Option StringObject
  | str s => some s.target
  | _ => none

def asObject? : Value → Option Object
  | obj o => some o.target
  | _ => none

def asBytes? (v : Value) : Option (List UInt8) := v.asString?.map (·.bytes)

def asText? (v : Value) : Option String := v.asString?.bind (·.text?)

/-- Whether two values refer to one and the same object. A value that is no reference refers to the
same object as nothing, itself included. -/
def sameRef : Value → Value → Bool
  | str a, str b => a.identity == b.identity
  | obj a, obj b => a.identity == b.identity
  | _, _ => false

end Value

inductive Literal where
  | bool (b : Bool)
  | int (n : Int64)
  | double (x : Binary64)
  | str (s : StringObject)
  | obj (o : Object)
deriving DecidableEq

/-- The value of a literal. An object made for it gets the given identity. -/
def Literal.make (identity : Nat) : Literal → Value
  | bool b => .bool b
  | int n => .int n
  | double x => .double x
  | str s => .str ⟨identity, s⟩
  | obj o => .obj ⟨identity, o⟩

end ValueStorage
