import ValueStorage.Text.Printable

/-!
Quoted text: a string between double quotes in which every character can be seen. A character that
would end the text, that leaves no mark, or that would join its neighbour is escaped, and every
escape starts with a backslash. Reading a quoted text back gives the string.
-/
namespace ValueStorage.Quoted

def escapeCode (c : Char) : List Char :=
  ['\\', 'u', '\x7b'] ++ Nat.toDigits 16 c.toNat ++ ['\x7d']

def escape (c : Char) : List Char :=
  if c = '\x00' then ['\\', '0']
  else if c = '\t' then ['\\', 't']
  else if c = '\r' then ['\\', 'r']
  else if c = '\n' then ['\\', 'n']
  else if c = '\\' then ['\\', '\\']
  else if c = '"' then ['\\', '"']
  else if Unicode.extendsGrapheme c || !Unicode.isPrintable c then escapeCode c
  else [c]

def quote (text : String) : String :=
  String.ofList ('"' :: (text.toList.flatMap escape ++ ['"']))

/-- Where a reader stands inside the quotes: between characters, after a backslash, before the brace
of a code point, or within its digits with the number read so far. -/
inductive Place where
  | plain
  | slash
  | brace
  | digits (n : Nat)
deriving DecidableEq, Repr

def digit? (c : Char) : Option Nat :=
  if '0' ≤ c ∧ c ≤ '9' then some (c.toNat - '0'.toNat)
  else if 'a' ≤ c ∧ c ≤ 'f' then some (c.toNat - 'a'.toNat + 10)
  else none

def named? (c : Char) : Option Char :=
  if c = '0' then some '\x00'
  else if c = 't' then some '\t'
  else if c = 'r' then some '\r'
  else if c = 'n' then some '\n'
  else if c = '\\' then some '\\'
  else if c = '"' then some '"'
  else none

/-- Reads the characters after the opening quote. The closing quote has to be the last one. -/
def unescape? : Place → List Char → Option (List Char)
  | _, [] => none
  | .plain, c :: rest =>
    if c = '"' then if rest.isEmpty then some [] else none
    else if c = '\\' then unescape? .slash rest
    else (unescape? .plain rest).map (c :: ·)
  | .slash, c :: rest =>
    if c = 'u' then unescape? .brace rest
    else (named? c).bind fun meant => (unescape? .plain rest).map (meant :: ·)
  | .brace, c :: rest => if c = '\x7b' then unescape? (.digits 0) rest else none
  | .digits n, c :: rest =>
    if c = '\x7d' then
      if n.isValidChar then (unescape? .plain rest).map (Char.ofNat n :: ·) else none
    else (digit? c).bind fun d => unescape? (.digits (16 * n + d)) rest

def unquote? (text : String) : Option String :=
  match text.toList with
  | '"' :: rest => (unescape? .plain rest).map String.ofList
  | _ => none

end ValueStorage.Quoted
