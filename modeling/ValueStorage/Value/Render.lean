import ValueStorage.Number.Text
import ValueStorage.Text.Quoted
import ValueStorage.Value.Basic

/-!
The two texts of a value. The display text is meant for a reader: strings appear as they are, with
U+FFFD where the bytes are no text. The literal is meant for inspection: strings are quoted, and
numbers keep every digit that tells them apart.
-/
namespace ValueStorage.Value

def display : Value → String
  | bool b => if b then "1" else "0"
  | int n => toString n.toInt
  | double x => x.fixedText
  | str s => Utf8.decodeLossy s.target.bytes
  | obj _ => "OBJECT"

def displayBytes (v : Value) : List UInt8 := v.asBytes?.getD (Utf8.encode v.display)

def literal : Value → String
  | bool b => if b then "true" else "false"
  | int n => toString n.toInt
  | double x => x.literal
  | str s => Quoted.quote (Utf8.decodeLossy s.target.bytes)
  | obj _ => "<object string>"

def layout (v : Value) : Layout := .text v.literal

def displayAll (vs : List Value) : String := "[" ++ ", ".intercalate (vs.map display) ++ "]"

end ValueStorage.Value
