/-!
Structured text in two layouts. The compact layout keeps everything on one line. The spread layout
gives each item of a group its own line, indented by four spaces for every group around it and
followed by a comma.
-/
namespace ValueStorage

inductive Bracket where
  | braces
  | round
  | square
deriving DecidableEq, Repr

namespace Bracket

def opening : Bracket → String
  | braces => " \x7b"
  | round => "("
  | square => "["

def closing : Bracket → String
  | braces => "\x7d"
  | round => ")"
  | square => "]"

def padding : Bracket → String
  | braces => " "
  | round => ""
  | square => ""

end Bracket

/-- A text that is never broken, a labelled part, or a named group of parts in brackets. -/
inductive Layout where
  | text (written : String)
  | field (label : String) (inner : Layout)
  | group (name : String) (bracket : Bracket) (items : List Layout)

namespace Layout

def ofNat (n : Nat) : Layout := .text (toString n)

def ofBool (b : Bool) : Layout := .text (if b then "true" else "false")

def ofNat? : Option Nat → Layout
  | none => .text "None"
  | some n => .group "Some" .round [ofNat n]

mutual

def compact : Layout → String
  | .text written => written
  | .field label inner => label ++ ": " ++ compact inner
  | .group name bracket items =>
    if items.isEmpty then name ++ bracket.opening ++ bracket.closing
    else name ++ bracket.opening ++ bracket.padding ++ ", ".intercalate (compactAll items) ++
      bracket.padding ++ bracket.closing

def compactAll : List Layout → List String
  | [] => []
  | item :: rest => compact item :: compactAll rest

end

/-- A line of the spread layout: how many groups stand around it, and what it says. -/
structure Line where
  depth : Nat
  text : String
deriving DecidableEq, Repr

mutual

/-- The lines of a layout. The first begins with `lead` and the last ends with `trail`. -/
def lines (depth : Nat) (lead trail : String) : Layout → List Line
  | .text written => [⟨depth, lead ++ written ++ trail⟩]
  | .field label inner => lines depth (lead ++ label ++ ": ") trail inner
  | .group name bracket items =>
    if items.isEmpty then [⟨depth, lead ++ name ++ bracket.opening ++ bracket.closing ++ trail⟩]
    else ⟨depth, lead ++ name ++ bracket.opening⟩ ::
      (linesAll (depth + 1) items ++ [⟨depth, bracket.closing ++ trail⟩])

def linesAll (depth : Nat) : List Layout → List Line
  | [] => []
  | item :: rest => lines depth "" "," item ++ linesAll depth rest

end

theorem linesAll_eq_flatMap (depth : Nat) (items : List Layout) :
    linesAll depth items = items.flatMap (lines depth "" ",") := by
  induction items with
  | nil => rfl
  | cons item rest ih => rw [linesAll, ih, List.flatMap_cons]

def Line.indented (line : Line) : String :=
  String.ofList (List.replicate (4 * line.depth) ' ') ++ line.text

def spread (x : Layout) : String := "\n".intercalate ((x.lines 0 "" "").map Line.indented)

end Layout

end ValueStorage
