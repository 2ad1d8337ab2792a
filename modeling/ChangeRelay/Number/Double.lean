/-!
# Double-precision numbers

A double is its 64 bits: a sign, an 11-bit exponent field and a 52-bit fraction. Leaving the sign
off, the remaining 63 bits are its *magnitude*, and magnitudes are ordered as the values are. The
finite value of a magnitude is a whole number of *units* of 2^-1074, so arithmetic is exact on
units and rounds once, to the nearest double with ties to an even significand (`ofRatio`).

The numbers of `Value` and of `messages_per_second` are such doubles.

* `order_eq_iff`: two doubles compare as equal only when all 64 bits agree.
-/

namespace ChangeRelay

/-- A double-precision number, as its bits. -/
structure Double where
  /-- The sign, the exponent field and the fraction, from the highest bit down. -/
  bits : UInt64
deriving DecidableEq, Inhabited, Repr

namespace Double

/-- The highest bit, which is the sign's. -/
def signBit : Nat := 0x8000000000000000

/-- The leading bit of a significand, which only the exponent field tells of. -/
def hiddenBit : Nat := 0x10000000000000

/-- Whether the sign is set. -/
def negative (d : Double) : Bool := signBit ≤ d.bits.toNat

/-- The bits below the sign. -/
def magnitude (d : Double) : Nat := d.bits.toNat % signBit

/-- The magnitude of the infinities. -/
def infiniteMagnitude : Nat := 0x7FF * hiddenBit

def isNaN (d : Double) : Bool := infiniteMagnitude < d.magnitude

def isInfinite (d : Double) : Bool := d.magnitude = infiniteMagnitude

def isFinite (d : Double) : Bool := d.magnitude < infiniteMagnitude

def isZero (d : Double) : Bool := d.magnitude = 0

/-- The double with this sign and magnitude. -/
def ofMagnitude (negative : Bool) (magnitude : Nat) : Double :=
  ⟨UInt64.ofNat (magnitude % signBit + if negative then signBit else 0)⟩

/-- Positive zero. -/
def zero : Double := ⟨0⟩

/-- The significand of a finite double, with the leading one that the bits leave out. -/
def significand (d : Double) : Nat :=
  if d.magnitude < hiddenBit then d.magnitude else d.magnitude % hiddenBit + hiddenBit

/-- The power of two on the significand: a finite value is `significand * 2 ^ scale` units. -/
def scale (d : Double) : Nat := d.magnitude / hiddenBit - 1

/-- The absolute value of a finite double, in units of 2^-1074. -/
def units (d : Double) : Nat := d.significand <<< d.scale

/-! ## Rounding -/

/-- A quotient rounded to the nearest whole number, a half going to the even neighbour. -/
def roundDiv (num den : Nat) : Nat :=
  let q := num / den
  let twice := 2 * (num % den)
  if twice < den ∨ (twice = den ∧ q % 2 = 0) then q else q + 1

/-- The magnitude of the double nearest to `num / den` units, which may be infinite. -/
def nearestMagnitude (num den : Nat) : Nat :=
  let whole := num / den
  let shift := Nat.log2 whole - 52
  min (shift * hiddenBit + roundDiv num (den <<< shift)) infiniteMagnitude

/-- The double nearest to a non-negative quotient. -/
def ofRatio (num den : Nat) : Double :=
  ofMagnitude false (nearestMagnitude (num <<< 1074) den)

/-- The double nearest to a whole number. -/
def ofNat (n : Nat) : Double := ofRatio n 1

/-- The same number with the other sign. -/
def neg (d : Double) : Double := ofMagnitude (!d.negative) d.magnitude

/-! The three operations below are for finite operands without a sign. -/

/-- A sum, rounded once. -/
def add (a b : Double) : Double := ofRatio (a.units + b.units) (1 <<< 1074)

/-- A product, rounded once. -/
def mul (a b : Double) : Double := ofRatio (a.units * b.units) (1 <<< 2148)

/-- A quotient by a number other than zero, rounded once. -/
def div (a b : Double) : Double := ofRatio a.units b.units

/-! ## Order -/

/-- The place of a double in the total order of all bit patterns: negative numbers, from the
largest magnitude down, then positive ones, from zero up. -/
def rank (d : Double) : Int :=
  if d.negative then -(d.magnitude : Int) - 1 else d.magnitude

/-- The total order of all bit patterns. -/
def order (a b : Double) : Ordering := compare a.rank b.rank

/-- Whether `a` is below `b` as a number; no comparison with a NaN holds. -/
def below (a b : Double) : Bool :=
  let value (d : Double) : Int := if d.negative then -(d.magnitude : Int) else d.magnitude
  !a.isNaN && !b.isNaN && value a < value b

theorem rank_inj {a b : Double} (h : a.rank = b.rank) : a = b := by
  obtain ⟨a⟩ := a
  obtain ⟨b⟩ := b
  have ha := a.toNat_lt
  have hb := b.toNat_lt
  simp only [rank, negative, magnitude, decide_eq_true_eq] at h
  unfold signBit at h
  have key : a.toNat = b.toNat := by
    split at h <;> split at h <;> omega
  exact congrArg Double.mk (UInt64.toNat_inj.mp key)

/-- Two doubles compare as equal exactly when their bits are the same. -/
theorem order_eq_iff {a b : Double} : order a b = .eq ↔ a = b := by
  constructor
  · intro h
    exact rank_inj (Std.LawfulEqOrd.eq_of_compare h)
  · rintro rfl
    simp [order]

end Double

end ChangeRelay
