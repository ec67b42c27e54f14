import ValueStorage.Layout
import ValueStorage.Text.Utf8

/-!
The objects that values refer to. An object is what it contains; that two references lead to the
same one is told by the identity in their handles, never by the contents.
-/
namespace ValueStorage

inductive ObjectKind where
  | string
deriving DecidableEq, Repr

namespace ObjectKind

def name : ObjectKind → String
  | string => "String"

end ObjectKind

structure ObjectHeader where
  kind : ObjectKind
deriving DecidableEq, Repr

def ObjectHeader.layout (h : ObjectHeader) : Layout :=
  .group "ObjectHeader" .braces [.field "kind" (.text h.kind.name)]

/-- A string of arbitrary bytes, which are counted once, when it is made. -/
structure StringObject where
  bytes : List UInt8
  length : Nat
  length_eq : length = bytes.length
deriving DecidableEq, Repr

namespace StringObject

def ofBytes (bytes : List UInt8) : StringObject := ⟨bytes, bytes.length, rfl⟩

def ofText (text : String) : StringObject := ofBytes (Utf8.encode text)

def header (_ : StringObject) : ObjectHeader := ⟨.string⟩

def isEmpty (s : StringObject) : Bool := s.length == 0

def text? (s : StringObject) : Option String := Utf8.decode? s.bytes

def size (s : StringObject) : Nat := s.length

theorem length_bytes (s : StringObject) : s.bytes.length = s.size := s.length_eq.symm

def layout (s : StringObject) : Layout :=
  .group "StringObject" .braces
    [.field "header" s.header.layout,
     .field "values" (.group "" .square (s.bytes.map fun b => .ofNat b.toNat)),
     .field "length" (.ofNat s.length)]

end StringObject

inductive Object where
  | string (s : StringObject)
deriving DecidableEq, Repr

namespace Object

def contents : Object → StringObject
  | string s => s

def header (o : Object) : ObjectHeader := o.contents.header

def size (o : Object) : Nat := o.contents.size

theorem length_bytes (o : Object) : o.contents.bytes.length = o.size := o.contents.length_bytes

def layout : Object → Layout
  | string s => .group "String" .round [s.layout]

end Object

/-- A reference: the object it leads to, and the identity that this object got when it was made. -/
structure Handle (α : Type) where
  identity : Nat
  target : α
deriving DecidableEq, Repr

end ValueStorage
