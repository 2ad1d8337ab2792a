import ChangeRelay.Number.Shortest

/-!
# Layouts of doubles

Three places write doubles, each with its own layout of the shortest digits: messages
(`Layout.plain`), inspection (`Layout.inspected`) and JSON texts (`Layout.json`). A layout is one
record of decisions; `Double.numeral` follows it for a finite double and `Double.text` for any.
-/

namespace ChangeRelay

/-- How a double is laid out. -/
structure Layout where
  /-- Leading digits at these powers of ten are written without an exponent; `none` for all. -/
  positional : Option (Int × Int)
  /-- Whether whole numbers written without an exponent end in `.0`. -/
  pointZero : Bool
  /-- The sign of an exponent that is not negative. -/
  exponentSign : ExponentSign
  /-- Which way an exact tie between two shortest decimals goes. -/
  tie : Shortest.Tie

namespace Layout

/-- In messages: never an exponent, and whole numbers without a point. -/
def plain : Layout :=
  { positional := none, pointZero := false, exponentSign := .unsigned, tie := .up }

/-- For inspection: an exponent below 10^-4 and from 10^16 on. -/
def inspected : Layout :=
  { positional := some (-4, 15), pointZero := true, exponentSign := .unsigned, tie := .up }

/-- In JSON texts: an exponent below 10^-5 and from 10^16 on, with its sign. -/
def json : Layout :=
  { positional := some (-5, 15), pointZero := true, exponentSign := .plus, tie := .even }

/-- Whether a leading digit at this power of ten is written without an exponent. -/
def isPositional (l : Layout) (leading : Int) : Bool :=
  match l.positional with
  | none => true
  | some (least, greatest) => least ≤ leading && leading ≤ greatest

/-- The fraction of a whole number. -/
def wholeFraction (l : Layout) : Digits := if l.pointZero then [.zero] else []

end Layout

namespace Decimal

/-- Without an exponent: zeros fill up to the point on either side. -/
def positional (l : Layout) (negative : Bool) (d : Decimal) : Numeral :=
  let ds := Digits.ofNat d.digits
  if 0 ≤ d.exponent then
    ⟨negative, ds ++ List.replicate d.exponent.toNat .zero, l.wholeFraction, none⟩
  else
    let places := (-d.exponent).toNat
    if places < ds.length then
      ⟨negative, ds.take (ds.length - places), ds.drop (ds.length - places), none⟩
    else ⟨negative, [.zero], List.replicate (places - ds.length) .zero ++ ds, none⟩

/-- With an exponent: one digit before the point, and a point only if more digits follow. -/
def scientific (l : Layout) (negative : Bool) (d : Decimal) : Numeral :=
  let ds := Digits.ofNat d.digits
  let sign := if d.leading < 0 then .minus else l.exponentSign
  ⟨negative, ds.take 1, ds.drop 1, some (sign, Digits.ofNat d.leading.natAbs)⟩

end Decimal

namespace Double

/-- The numeral of a finite double in a layout. -/
def numeral (l : Layout) (d : Double) : Numeral :=
  if d.isZero then ⟨d.negative, [.zero], l.wholeFraction, none⟩
  else
    let s := d.shortest l.tie
    if l.isPositional s.leading then s.positional l d.negative else s.scientific l d.negative

/-- The text of a double in a layout. A NaN shows no sign. -/
def text (l : Layout) (d : Double) : String :=
  if d.isNaN then "NaN"
  else if d.isInfinite then (if d.negative then "-inf" else "inf")
  else (d.numeral l).text

end Double

end ChangeRelay
