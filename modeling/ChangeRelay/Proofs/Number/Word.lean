import Mathlib.Algebra.Order.Ring.Nat

/-!
# Words

A number is a word of so many bits if it is small enough. Steps in words that are checked come to
nothing as soon as a number on the way is no word.

* `word?_bind`: a number on the way that is no larger than the last one makes no difference.
* **`powFrom?_eq`**: a power by squaring, each step of which is checked, fails only if it has to.
-/

namespace ChangeRelay

/-- A number as a word of so many bits, if it is one. -/
def word? (bits n : Nat) : Option (BitVec bits) := if n < 2 ^ bits then some (.ofNat bits n) else none

theorem word?_cases (bits n : Nat) : (n < 2 ^ bits ∧ ∃ w, word? bits n = some w ∧ w.toNat = n) ∨
    2 ^ bits ≤ n ∧ word? bits n = none := by
  rcases Nat.lt_or_ge n (2 ^ bits) with fits | large
  · exact .inl ⟨fits, _, if_pos fits,
      (BitVec.toNat_ofNat n bits).trans (Nat.mod_eq_of_lt fits)⟩
  · exact .inr ⟨large, if_neg (Nat.not_lt.mpr large)⟩

theorem word?_toNat {bits : Nat} (w : BitVec bits) : word? bits w.toNat = some w := by
  rw [word?, if_pos w.isLt, BitVec.ofNat_toNat, BitVec.setWidth_eq]

/-- A word that is needed on the way to a number that is no smaller. -/
theorem word?_bind {bits m n : Nat} {f : BitVec bits → Option (BitVec bits)} (le : m ≤ n)
    (h : ∀ w : BitVec bits, w.toNat = m → f w = word? bits n) :
    (word? bits m).bind f = word? bits n := by
  rcases word?_cases bits m with ⟨-, w, some_w, w_eq⟩ | ⟨large, none_⟩
  · rw [some_w]
    exact h w w_eq
  · rw [none_, word?, if_neg (by omega)]
    rfl

/-! ## Powers -/

/-- `acc * base ^ n` as a word of 32 bits, by squaring. There is none if a product on the way is no
word; the base is not squared any more when the last factor has been taken. -/
def powFrom? (acc base : BitVec 32) (n : Nat) : Option (BitVec 32) :=
  if n = 0 then some acc
  else (if n % 2 = 1 then word? 32 (acc.toNat * base.toNat) else some acc).bind fun acc =>
    if n = 1 then some acc
    else (word? 32 (base.toNat * base.toNat)).bind fun base => powFrom? acc base (n / 2)
termination_by n

/-- The factor that the last digit of the exponent gives. -/
theorem word?_digit (acc base : BitVec 32) (n : Nat) :
    (if n % 2 = 1 then word? 32 (acc.toNat * base.toNat) else some acc) =
      word? 32 (acc.toNat * base.toNat ^ (n % 2)) := by
  rcases Nat.mod_two_eq_zero_or_one n with even | odd
  · simp [even, word?_toNat]
  · simp [odd]

/-- A power by the last digit of its exponent and the digits before it. -/
theorem pow_digits (base n : Nat) : base ^ (n % 2) * (base * base) ^ (n / 2) = base ^ n := by
  rw [← Nat.pow_two, ← Nat.pow_mul, ← Nat.pow_add, Nat.mod_add_div]

/-- **A power by squaring** fails only if it is no word. By induction on the exponent: each product on
the way is no larger than the power, so if it is no word then the power is none either. -/
theorem powFrom?_eq {acc base : BitVec 32} (one : 1 ≤ acc.toNat) (one' : 1 ≤ base.toNat) (n : Nat) :
    powFrom? acc base n = word? 32 (acc.toNat * base.toNat ^ n) := by
  induction n using Nat.strongRecOn generalizing acc base with
  | _ n ih =>
    rw [powFrom?]
    by_cases zero : n = 0
    · rw [if_pos zero, zero, Nat.pow_zero, Nat.mul_one, word?_toNat]
    have digit : base.toNat ^ (n % 2) ≤ base.toNat ^ n :=
      Nat.pow_le_pow_right one' (Nat.mod_le n 2)
    rw [if_neg zero, word?_digit]
    refine word?_bind (Nat.mul_le_mul_left _ digit) fun acc' acc'_eq => ?_
    by_cases last : n = 1
    · rw [if_pos last, ← word?_toNat acc', acc'_eq, last]
    have square : base.toNat * base.toNat ≤ acc.toNat * base.toNat ^ n :=
      calc base.toNat * base.toNat = base.toNat ^ 2 := (Nat.pow_two _).symm
        _ ≤ base.toNat ^ n := Nat.pow_le_pow_right one' (by omega)
        _ ≤ acc.toNat * base.toNat ^ n := Nat.le_mul_of_pos_left _ one
    rw [if_neg last]
    refine word?_bind square fun base' base'_eq => ?_
    have positive : 1 ≤ acc'.toNat := acc'_eq ▸ Nat.mul_pos one (Nat.pow_pos one')
    have positive' : 1 ≤ base'.toNat := base'_eq ▸ Nat.mul_pos one' one'
    rw [ih (n / 2) (by omega) positive positive', acc'_eq, base'_eq, Nat.mul_assoc, pow_digits]

end ChangeRelay
