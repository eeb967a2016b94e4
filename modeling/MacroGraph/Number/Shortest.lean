import MacroGraph.Number.Binary64

/-!
The shortest decimal that reads back as a given magnitude. Decimals with few digits lie on
coarse grids of powers of ten; the first grid, from coarse to fine, with a point among the
reals that round to the magnitude gives the digits.
-/
namespace MacroGraph

/-- The number `digits · 10 ^ exponent`. -/
structure Decimal where
  digits : Nat
  exponent : Int
  deriving DecidableEq, Repr

/-- Which of two equally near points of a grid is taken. -/
inductive Tie where
  | upward
  | even
  deriving DecidableEq, Repr

namespace Shortest
open Binary64

/-- The reals that round to a rank, doubled and in units of `2 ^ -1074`. Both ends belong
to it exactly when the rank is even. -/
structure Interval where
  low : Nat
  middle : Nat
  high : Nat
  closed : Bool

def interval (rank : Nat) : Interval where
  low := units (rank - 1) + units rank
  middle := 2 * units rank
  high := units rank + units (rank + 1)
  closed := rank % 2 == 0

def Interval.contains (i : Interval) (point scale : Nat) : Bool :=
  if i.closed then decide (i.low * scale ≤ point) && decide (point ≤ i.high * scale)
  else decide (i.low * scale < point) && decide (point < i.high * scale)

/-- The multiple of `10 ^ exponent` in the interval that is nearest its middle. Only the
two neighbours of the middle can be. -/
def Interval.point? (i : Interval) (tie : Tie) (exponent : Int) : Option Nat :=
  let scale := Nat.pow 10 (-exponent).toNat
  let step := 2 * unitsInOne * Nat.pow 10 exponent.toNat
  let below := i.middle * scale / step
  let doubled := 2 * (i.middle * scale % step)
  match i.contains (below * step) scale, i.contains ((below + 1) * step) scale with
  | true, false => some below
  | false, true => some (below + 1)
  | false, false => none
  | true, true =>
    if doubled < step then some below
    else if step < doubled then some (below + 1)
    else match tie with
      | .upward => some (below + 1)
      | .even => some (below + below % 2)

/-- Tries `count` grids, each ten times finer than the one before. -/
def Interval.search (i : Interval) (tie : Tie) : Nat → Int → Option Decimal
  | 0, _ => none
  | count + 1, exponent =>
    match i.point? tie exponent with
    | some digits => some ⟨digits, exponent⟩
    | none => i.search tie count (exponent - 1)

/-- An exponent whose power of ten is above every real of the interval. -/
def coarsest (rank : Nat) : Int :=
  ((units rank).log2 - 1074 + 2 : Int) * 30103 / 100000 + 2

/-- The decimal with the fewest digits that reads back as the rank, the nearest of those.
Zero has one digit. The grid of `10 ^ -1074` holds every magnitude, so the search ends. -/
def ofRank (tie : Tie) (rank : Nat) : Decimal :=
  if rank = 0 then ⟨0, 0⟩
  else
    let top := coarsest rank
    ((interval rank).search tie (top + 1075).toNat top).getD ⟨0, 0⟩

end Shortest
end MacroGraph
