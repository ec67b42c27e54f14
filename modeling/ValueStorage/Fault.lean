import ValueStorage.Layout
import ValueStorage.Text.Quoted

/-!
The reasons for which storage refuses an operation.
-/
namespace ValueStorage

inductive Fault where
  | outOfMemory (requested : Nat) (unit : String) (limit : Option Nat)
  | indexOutOfBounds (index length : Nat)
  | invalidCapacity (count capacity : Nat)
  | stackUnderflow
  | poolFull (most : Nat)
deriving DecidableEq, Repr

namespace Fault

def limitSuffix : Option Nat → String
  | none => ""
  | some limit => " (limit " ++ toString limit ++ ")"

def message : Fault → String
  | outOfMemory requested unit limit =>
    "Out of memory: requested " ++ toString requested ++ " " ++ unit ++ limitSuffix limit
  | indexOutOfBounds index length =>
    "Index out of bounds: index " ++ toString index ++ " but length is " ++ toString length
  | invalidCapacity count capacity =>
    "Invalid capacity: count " ++ toString count ++ " exceeds capacity " ++ toString capacity
  | stackUnderflow => "Stack underflow"
  | poolFull most => "Constant pool full: at most " ++ toString most ++ " constants"

def layout : Fault → Layout
  | outOfMemory requested unit limit =>
    .group "OutOfMemory" .braces
      [.field "requested" (.ofNat requested), .field "unit" (.text (Quoted.quote unit)),
       .field "limit" (.ofNat? limit)]
  | indexOutOfBounds index length =>
    .group "IndexOutOfBounds" .braces
      [.field "index" (.ofNat index), .field "len" (.ofNat length)]
  | invalidCapacity count capacity =>
    .group "InvalidCapacity" .braces
      [.field "count" (.ofNat count), .field "capacity" (.ofNat capacity)]
  | stackUnderflow => .text "StackUnderflow"
  | poolFull most => .group "ConstantPoolFull" .braces [.field "max" (.ofNat most)]

end Fault

end ValueStorage
