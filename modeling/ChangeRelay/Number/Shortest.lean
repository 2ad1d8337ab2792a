import ChangeRelay.Number.Double
import ChangeRelay.Number.Numeral

/-!
# Shortest decimals

The shortest decimal of a double has the fewest digits among the decimals that are nearer to it
than to any other double (a decimal half way to a neighbour counts when the significand is even,
because reading rounds it back here). Of two such decimals the nearer one is taken; an exact tie
goes the way the caller says.

The search goes through the grids of 1, 2, … 17 significant digits. If a grid has a point in the
double's interval, then one of the double's two neighbours on that grid lies in it, so only those
two are tried, in exact arithmetic.
-/

namespace ChangeRelay

/-- A positive decimal: `digits * 10 ^ exponent`, where the last digit is not zero. -/
structure Decimal where
  digits : Nat
  exponent : Int
deriving DecidableEq, Repr

namespace Decimal

/-- Moves trailing zeros into the exponent. -/
def trim (fuel digits : Nat) (exponent : Int) : Decimal :=
  match fuel with
  | 0 => ⟨digits, exponent⟩
  | fuel + 1 =>
    if digits % 10 = 0 ∧ digits ≠ 0 then trim fuel (digits / 10) (exponent + 1)
    else ⟨digits, exponent⟩

/-- The power of ten of the leading digit. -/
def leading (d : Decimal) : Int := d.exponent + (Digits.ofNat d.digits).length - 1

end Decimal

namespace Shortest

/-- Which way an exact tie between two equally short decimals goes. -/
inductive Tie
  | up
  | even
deriving DecidableEq, Repr

/-- The interval of a double, in quarter units of 2^-1076: the value and the two ends. -/
structure Interval where
  low : Nat
  value : Nat
  high : Nat
  /-- Whether the ends belong to the interval. -/
  closed : Bool

/-- Half way to the neighbours on both sides; below a power of two the neighbours are twice as
dense. -/
def interval (d : Double) : Interval :=
  let step := 1 <<< d.scale
  { low := 4 * d.units - (if d.significand = Double.hiddenBit ∧ 0 < d.scale then step else 2 * step)
    value := 4 * d.units
    high := 4 * d.units + 2 * step
    closed := d.significand % 2 = 0 }

/-- Whether `n / den`, in the same units, lies in the interval. -/
def Interval.holds (i : Interval) (n den : Nat) : Bool :=
  if i.closed then i.low * den ≤ n && n ≤ i.high * den
  else i.low * den < n && n < i.high * den

/-- The least power of ten above `num / den`, as an exponent; `fuel` bounds the fractions. -/
def exponentAbove (num den fuel : Nat) : Int :=
  if den ≤ num then (Digits.ofNat (num / den)).length
  else go (num * 10) 0 fuel
where
  go (num : Nat) (e : Int) : Nat → Int
    | 0 => e
    | fuel + 1 => if den ≤ num then e else go (num * 10) (e - 1) fuel

/-- The value's neighbours on the grid of multiples of `10 ^ e`, and the better one of those in
the interval. -/
def onGrid (tie : Tie) (i : Interval) (e : Int) : Option Nat :=
  -- the grid's step is `up / down` quarter units
  let up := Nat.pow 10 e.toNat <<< 1076
  let down := Nat.pow 10 (-e).toNat
  let below := i.value * down / up
  let above := below + 1
  let belowFits := 0 < below && i.holds (below * up) down
  let aboveFits := i.holds (above * up) down
  if belowFits && aboveFits then
    let toBelow := i.value * down - below * up
    let toAbove := above * up - i.value * down
    if toBelow < toAbove then some below
    else if toAbove < toBelow then some above
    else match tie with
      | .up => some above
      | .even => some (if below % 2 = 0 then below else above)
  else if belowFits then some below
  else if aboveFits then some above
  else none

/-- Tries grids of more and more digits. -/
def search (tie : Tie) (i : Interval) (top : Int) (digits : Nat) : Nat → Option Decimal
  | 0 => none
  | fuel + 1 =>
    let e := top - digits
    match onGrid tie i e with
    | some n => some (Decimal.trim 20 n e)
    | none => search tie i top (digits + 1) fuel

end Shortest

/-- The shortest decimal of a finite double other than zero, leaving off its sign. -/
def Double.shortest (tie : Shortest.Tie) (d : Double) : Decimal :=
  let i := Shortest.interval d
  let top := Shortest.exponentAbove i.value (1 <<< 1076) 400
  (Shortest.search tie i top 1 17).getD ⟨0, 0⟩

end ChangeRelay
