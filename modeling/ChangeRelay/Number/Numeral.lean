/-!
# Numerals

The written form of a number: an optional minus, digits, an optional point with more digits, and an
optional exponent. `Numeral.text` writes one down; `Digits.ofNat` and `Digits.value` go between
whole numbers and their digits.

* `Digits.value_ofNat`: the digits of a number give it back.
* `Digits.ofNat_head`: only zero has digits that start with a zero.
* `decimal_inj`: two numbers are written differently.
-/

namespace ChangeRelay

/-- A decimal digit. -/
abbrev Digit := Fin 10

namespace Digit

def zero : Digit := ⟨0, by decide⟩

/-- The last digit of a number. -/
def ofNat (n : Nat) : Digit := ⟨n % 10, Nat.mod_lt n (by decide)⟩

end Digit

/-- Decimal digits, most significant first. -/
abbrev Digits := List Digit

namespace Digits

/-- The digits of a number, put in front of `tail`. -/
def ofNat.go (n : Nat) (tail : Digits) : Digits :=
  let tail := Digit.ofNat n :: tail
  if n < 10 then tail else ofNat.go (n / 10) tail
termination_by n

/-- The digits of a number; zero is one digit. -/
def ofNat (n : Nat) : Digits := ofNat.go n []

/-- The number that digits write, after the number `n`. -/
def valueFrom (n : Nat) (ds : Digits) : Nat := ds.foldl (fun n d => 10 * n + d.val) n

/-- The number that digits write. -/
def value (ds : Digits) : Nat := valueFrom 0 ds

/-- The character of a digit. -/
def char (d : Digit) : Char := Char.ofNat (48 + d.val)

/-- The characters of digits. -/
def chars (ds : Digits) : List Char := ds.map char

theorem valueFrom_go (m n : Nat) (tail : Digits) :
    valueFrom 0 (ofNat.go n tail) = valueFrom n tail := by
  fun_induction ofNat.go n tail generalizing m with
  | case1 n tail tail' h =>
    have : n % 10 = n := Nat.mod_eq_of_lt h
    simp [valueFrom, tail', Digit.ofNat, this]
  | case2 n tail tail' h ih =>
    rw [ih m]
    have e : 10 * (n / 10) + n % 10 = n := by omega
    simp [valueFrom, tail', Digit.ofNat, e]

/-- The digits of a number give it back. -/
theorem value_ofNat (n : Nat) : value (ofNat n) = n := by
  simpa [value, ofNat, valueFrom] using valueFrom_go 0 n []

theorem go_ne_nil (n : Nat) (tail : Digits) : ofNat.go n tail ≠ [] := by
  fun_induction ofNat.go n tail with
  | case1 => simp_all
  | case2 _ _ _ _ ih => exact ih

theorem ofNat_ne_nil (n : Nat) : ofNat n ≠ [] := go_ne_nil n []

theorem head_go {n : Nat} (tail : Digits) (hn : n ≠ 0) :
    ∃ d ds, ofNat.go n tail = d :: ds ∧ d ≠ .zero := by
  fun_induction ofNat.go n tail with
  | case1 n tail tail' h =>
    refine ⟨_, _, rfl, fun e => hn ?_⟩
    have := congrArg Fin.val e
    simp only [Digit.ofNat, Digit.zero] at this
    omega
  | case2 n tail tail' h ih => exact ih (by omega)

/-- Only zero has digits that start with a zero. -/
theorem ofNat_head {n : Nat} (hn : n ≠ 0) : ∃ d ds, ofNat n = d :: ds ∧ d ≠ .zero :=
  head_go [] hn

/-- A number below ten is one digit. -/
theorem ofNat_of_lt {n : Nat} (h : n < 10) : ofNat n = [.ofNat n] := by
  rw [ofNat, ofNat.go]
  exact if_pos h

theorem ofNat_zero : ofNat 0 = [.zero] := ofNat_of_lt (by decide)

end Digits

/-- The sign before an exponent's digits. -/
inductive ExponentSign
  | unsigned
  | plus
  | minus
deriving DecidableEq, Repr

/-- The written form of a number. -/
structure Numeral where
  negative : Bool
  whole : Digits
  /-- The digits after the point; without any there is no point. -/
  fraction : Digits
  exponent : Option (ExponentSign × Digits)
deriving DecidableEq, Repr

namespace Numeral

/-- The numeral of a whole number. -/
def ofInt (i : Int) : Numeral := ⟨i < 0, Digits.ofNat i.natAbs, [], none⟩

def exponentChars : Option (ExponentSign × Digits) → List Char
  | none => []
  | some (.unsigned, ds) => 'e' :: Digits.chars ds
  | some (.plus, ds) => 'e' :: '+' :: Digits.chars ds
  | some (.minus, ds) => 'e' :: '-' :: Digits.chars ds

/-- The characters of a numeral. -/
def chars (n : Numeral) : List Char :=
  (if n.negative then ['-'] else []) ++ Digits.chars n.whole ++
    (if n.fraction.isEmpty then [] else '.' :: Digits.chars n.fraction) ++
    exponentChars n.exponent

/-- A numeral as text. -/
def text (n : Numeral) : String := String.ofList n.chars

end Numeral

/-- A whole number in decimal digits. -/
def decimal (i : Int) : String := (Numeral.ofInt i).text

theorem Digits.char_inj : ∀ {a b : Digit}, char a = char b → a = b := by decide

theorem Digits.chars_inj {a b : Digits} (h : chars a = chars b) : a = b :=
  (List.map_inj_right fun _ _ => char_inj).mp h

/-- Two numbers are written differently. -/
theorem decimal_inj {m n : Nat} (h : decimal m = decimal n) : m = n := by
  have chars (k : Nat) : (Numeral.ofInt k).chars = Digits.chars (Digits.ofNat k) := by
    simp [Numeral.ofInt, Numeral.chars, Numeral.exponentChars]
  have hc := String.ofList_injective h
  rw [chars, chars] at hc
  rw [← Digits.value_ofNat m, ← Digits.value_ofNat n, Digits.chars_inj hc]

end ChangeRelay
