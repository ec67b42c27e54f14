import ValueStorage.Number.Binary64
import ValueStorage.Number.Decimal

/-!
The shortest decimal that reads back as a given binary number. A decimal reads back when it lies
nearer to the number than to its neighbours; half way counts when the significand is even. The
search walks the grids of multiples of a power of ten, the coarsest first, and on each grid tries
the two points next to the number. The first grid with a hit has the fewest digits; of two hits the
nearer is taken, and of two equally near ones the larger.
-/
namespace ValueStorage.Binary64

/-- The lower end of the decimals that read back, over `4 * 10 ^ places`. Below a power of two the
numbers lie twice as close, except where the subnormal numbers begin. -/
def lowEnd (x : Binary64) : Nat :=
  (4 * x.significand - if x.fraction = 0 ∧ 1 < x.exponentField then 1 else 2) * x.unit

def highEnd (x : Binary64) : Nat := (4 * x.significand + 2) * x.unit

/-- Whether the decimal `n`, over `10 ^ places`, reads back as the magnitude of `x`. -/
def readsBack (x : Binary64) (n : Nat) : Bool :=
  if x.significand % 2 = 0 then x.lowEnd ≤ 4 * n ∧ 4 * n ≤ x.highEnd
  else x.lowEnd < 4 * n ∧ 4 * n < x.highEnd

def neighbour? (x : Binary64) (grid : Nat) : Option Nat :=
  let step := Nat.pow 10 grid
  let below := x.magnitude / step
  let above := below + 1
  match x.readsBack (below * step), x.readsBack (above * step) with
  | false, false => none
  | true, false => some below
  | false, true => some above
  | true, true => if 2 * (x.magnitude % step) < step then some below else some above

def firstHit (x : Binary64) : Nat → Nat × Nat
  | 0 => (x.magnitude, 0)
  | grid + 1 =>
    match x.neighbour? (grid + 1) with
    | some digits => (digits, grid + 1)
    | none => x.firstHit grid

/-- The shortest decimal that reads back as the magnitude of a finite number. -/
def shortest (x : Binary64) : Decimal :=
  if x.significand = 0 then ⟨0, 0⟩
  else
    let (digits, grid) := x.firstHit (Nat.toDigits 10 x.magnitude).length
    ⟨digits, (grid : Int) - x.places⟩

end ValueStorage.Binary64
