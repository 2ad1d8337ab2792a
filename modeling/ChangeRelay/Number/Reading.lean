import ChangeRelay.Number.Double
import ChangeRelay.Number.Numeral

/-!
# The number a numeral stands for

A numeral without point and exponent is an integer if it fits 64 bits, signed when it carries a
minus. Every other numeral is a double, found in two steps with one rounding each: the leading
digits that fit 64 bits make a whole number, which is rounded to a double, and that double is then
multiplied or divided by a power of ten. A numeral beyond the largest double has no number.

* `number?_ofInt`: the numeral of a 64-bit integer stands for that integer.
-/

namespace ChangeRelay

/-- What a numeral stands for. -/
inductive Number
  | integer (i : Int)
  | double (d : Double)
deriving DecidableEq, Repr

namespace Numeral

/-- Takes digits after `n` while the number stays below 2^64; also counts those left over. -/
def takeWhole (n : Nat) : Digits → Nat × Nat
  | [] => (n, 0)
  | d :: ds =>
    if 10 * n + d.val < UInt64.size then takeWhole (10 * n + d.val) ds
    else (n, ds.length + 1)

/-- The same for digits after the point, counting those taken. -/
def takeFraction (n taken : Nat) : Digits → Nat × Nat
  | [] => (n, taken)
  | d :: ds =>
    if 10 * n + d.val < UInt64.size then takeFraction (10 * n + d.val) (taken + 1) ds
    else (n, taken)

/-- A power of ten as a double. -/
def tenTo (k : Nat) : Double := Double.ofNat (Nat.pow 10 k)

/-- Divides by `10 ^ k`, by at most `10 ^ 308` at a time. -/
def scaleDown (d : Double) (k : Nat) : Double :=
  if k ≤ 308 then d.div (tenTo k)
  else if d.isZero then d
  else scaleDown (d.div (tenTo 308)) (k - 308)
termination_by k

/-- Multiplies by `10 ^ e`; nothing past the largest double. -/
def scale? (d : Double) (e : Int) : Option Double :=
  if e < 0 then some (scaleDown d (-e).toNat)
  else if e ≤ 308 then
    let p := d.mul (tenTo e.toNat)
    if p.isInfinite then none else some p
  else if d.isZero then some d else none

/-- The value of an exponent's digits with their sign. -/
def exponentValue : Option (ExponentSign × Digits) → Int
  | none => 0
  | some (.minus, ds) => -(ds.value : Int)
  | some (_, ds) => ds.value

/-- The double a numeral stands for. -/
def double? (n : Numeral) : Option Double :=
  let (whole, left) := takeWhole 0 n.whole
  let (significand, taken) := takeFraction whole 0 n.fraction
  (scale? (Double.ofNat significand) (left - taken + exponentValue n.exponent)).map fun d =>
    if n.negative then d.neg else d

/-- The number a numeral stands for. -/
def number? (n : Numeral) : Option Number :=
  let (whole, left) := takeWhole 0 n.whole
  if left = 0 ∧ n.fraction = [] ∧ n.exponent = none then
    if n.negative then
      if 0 < whole ∧ whole ≤ 0x8000000000000000 then some (.integer (-whole))
      else n.double?.map .double
    else some (.integer whole)
  else n.double?.map .double

/-! ## Laws -/

theorem le_valueFrom : ∀ (ds : Digits) (n : Nat), n ≤ Digits.valueFrom n ds
  | [], _ => Nat.le_refl _
  | d :: ds, n => Nat.le_trans (by omega) (le_valueFrom ds (10 * n + d.val))

theorem takeWhole_of_value : ∀ {ds : Digits} {n : Nat}, Digits.valueFrom n ds < UInt64.size →
    takeWhole n ds = (Digits.valueFrom n ds, 0)
  | [], _, _ => rfl
  | d :: ds, n, h => by
    have hd : 10 * n + d.val < UInt64.size :=
      Nat.lt_of_le_of_lt (le_valueFrom ds (10 * n + d.val)) h
    rw [takeWhole, if_pos hd]
    exact takeWhole_of_value h

/-- The numeral of a 64-bit integer stands for that integer. -/
theorem number?_ofInt {i : Int} (hl : -0x8000000000000000 ≤ i) (hh : i < 0x10000000000000000) :
    (ofInt i).number? = some (.integer i) := by
  have hv : Digits.valueFrom 0 (Digits.ofNat i.natAbs) = i.natAbs := Digits.value_ofNat _
  have ht := @takeWhole_of_value (Digits.ofNat i.natAbs) 0 (by rw [hv, UInt64.size]; omega)
  rw [hv] at ht
  simp only [number?, ofInt, ht, and_self, if_true, decide_eq_true_eq]
  by_cases hn : i < 0
  · have : 0 < i.natAbs ∧ i.natAbs ≤ 0x8000000000000000 := by omega
    rw [if_pos hn, if_pos this]
    congr 2
    omega
  · rw [if_neg hn]
    congr 2
    omega

end Numeral

end ChangeRelay
