/-!
UTF-8 text in byte strings. A reader passes over the bytes once and cuts them into pieces: a
character for every well-formed sequence, and a hole for every ill-formed stretch. A stretch is as
long as the bytes still begin some well-formed sequence, and at least one byte. Strict decoding
asks that there be no hole; lossy decoding writes U+FFFD for each.
-/
namespace ValueStorage.Utf8

/-- A sequence that has begun: the bits read so far, how many bytes it still lacks (at least one),
and the range in which the next of them has to lie. -/
structure Pending where
  bits : Nat
  lacking : Nat
  low : Nat
  high : Nat
deriving DecidableEq, Repr

inductive Lead where
  | whole (c : Char)
  | opens (p : Pending)
  | illFormed
deriving DecidableEq, Repr

/-- The second byte of a longer sequence is restricted where a free one would give an overlong
form, a surrogate, or a number above U+10FFFF. -/
def lead (b : Nat) : Lead :=
  if b < 0x80 then .whole (Char.ofNat b)
  else if b < 0xC2 then .illFormed
  else if b < 0xE0 then .opens ⟨b - 0xC0, 1, 0x80, 0xBF⟩
  else if b = 0xE0 then .opens ⟨0, 2, 0xA0, 0xBF⟩
  else if b = 0xED then .opens ⟨0xD, 2, 0x80, 0x9F⟩
  else if b < 0xF0 then .opens ⟨b - 0xE0, 2, 0x80, 0xBF⟩
  else if b = 0xF0 then .opens ⟨0, 3, 0x90, 0xBF⟩
  else if b < 0xF4 then .opens ⟨b - 0xF0, 3, 0x80, 0xBF⟩
  else if b = 0xF4 then .opens ⟨4, 3, 0x80, 0x8F⟩
  else .illFormed

/-- A piece of the text: a character, or the hole that an ill-formed stretch leaves. -/
abbrev Piece := Option Char

structure Reader where
  pieces : Array Piece
  pending : Option Pending
deriving DecidableEq, Repr

namespace Reader

def start : Reader := ⟨#[], none⟩

def afresh (pieces : Array Piece) (b : Nat) : Reader :=
  match lead b with
  | .whole c => ⟨pieces.push (some c), none⟩
  | .opens p => ⟨pieces, some p⟩
  | .illFormed => ⟨pieces.push none, none⟩

/-- Reads one byte. A byte that cannot continue the sequence under way turns that sequence into a
hole and is then read afresh. -/
def feed (r : Reader) (byte : UInt8) : Reader :=
  let b := byte.toNat
  match r.pending with
  | none => afresh r.pieces b
  | some p =>
    if p.low ≤ b ∧ b ≤ p.high then
      let bits := p.bits * 64 + (b - 0x80)
      if p.lacking = 1 then ⟨r.pieces.push (some (Char.ofNat bits)), none⟩
      else ⟨r.pieces, some ⟨bits, p.lacking - 1, 0x80, 0xBF⟩⟩
    else afresh (r.pieces.push none) b

/-- All pieces, once the bytes are over: a sequence still under way is a hole. -/
def finish (r : Reader) : List Piece :=
  match r.pending with
  | none => r.pieces.toList
  | some _ => (r.pieces.push none).toList

end Reader

def pieces (bytes : List UInt8) : List Piece := (bytes.foldl Reader.feed Reader.start).finish

def replacement : Char := '\uFFFD'

def decodeLossy (bytes : List UInt8) : String :=
  String.ofList ((pieces bytes).map (·.getD replacement))

def decode? (bytes : List UInt8) : Option String :=
  let found := pieces bytes
  if found.all Option.isSome then some (String.ofList (found.map (·.getD replacement))) else none

def encode (text : String) : List UInt8 := text.toUTF8.data.toList

end ValueStorage.Utf8
