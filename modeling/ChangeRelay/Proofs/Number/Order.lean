import ChangeRelay.Number.Double
import Mathlib.Algebra.Order.Ring.Nat

/-!
# The order of doubles, by their bits

Turn over all bits below a set sign, and read what that gives as a signed word: doubles are ordered
as these words are. For a positive double the word is its magnitude, and for a negative one it is the
complement of its magnitude, so larger magnitudes come first and negative zero is next to zero.

* **`toInt_word`**: the place of a double in the order is its word.
* **`order_eq_lt_of_below`**: numbers come in the order of their values.
-/

namespace ChangeRelay.Double

/-- The bits of a double with those below a set sign turned over, to be read as a signed word. -/
def word (d : Double) : BitVec 64 :=
  d.bits.toBitVec ^^^ (d.bits.toBitVec.sshiftRight 63 >>> 1)

/-- A word without a sign has nothing left when it is shifted out. -/
theorem shifted_out {b : BitVec 64} (plain : b.msb = false) : b >>> 63 = 0 := by
  have small : b.toNat < 2 ^ 63 := by simpa [BitVec.msb_eq_decide] using plain
  refine BitVec.eq_of_toNat_eq ?_
  rw [BitVec.toNat_ushiftRight, Nat.shiftRight_eq_div_pow]
  exact Nat.div_eq_of_lt small

/-- What is turned over: nothing, or all below the sign. -/
theorem mask_eq (b : BitVec 64) :
    b.sshiftRight 63 >>> 1 = if b.msb then BitVec.allOnes 64 >>> 1 else 0 := by
  cases sign : b.msb with
  | false =>
    rw [BitVec.sshiftRight_eq_of_msb_false sign, shifted_out sign]
    rfl
  | true =>
    have plain : (~~~b).msb = false := by rw [BitVec.msb_not, sign]; rfl
    rw [BitVec.sshiftRight_eq_of_msb_true sign, shifted_out plain]
    rfl

/-- To turn over all bits of a number of 63 bits is to take it from the largest one. -/
theorem xor_low {n : Nat} (h : n < 2 ^ 63) : n ^^^ (2 ^ 63 - 1) = 2 ^ 63 - 1 - n := by
  have complement := BitVec.toNat_not (x := BitVec.ofNat 63 n)
  rw [← BitVec.xor_allOnes, BitVec.toNat_xor, BitVec.toNat_allOnes, BitVec.toNat_ofNat,
    Nat.mod_eq_of_lt h] at complement
  exact complement

/-- To turn over what is below the sign leaves the sign. -/
theorem xor_below_sign {n : Nat} (sign : n / 2 ^ 63 = 1) :
    n ^^^ (2 ^ 63 - 1) = 3 * 2 ^ 63 - 1 - n := by
  have parts := Nat.div_add_mod (n ^^^ (2 ^ 63 - 1)) (2 ^ 63)
  rw [Nat.xor_div_two_pow, Nat.xor_mod_two_pow, sign] at parts
  have low := xor_low (Nat.mod_lt n (Nat.two_pow_pos 63))
  have small : (2 ^ 63 - 1) / 2 ^ 63 = 0 ∧ (2 ^ 63 - 1) % 2 ^ 63 = 2 ^ 63 - 1 := by decide
  rw [small.1, small.2, low] at parts
  have whole := Nat.div_add_mod n (2 ^ 63)
  rw [sign] at whole
  simp only [Nat.xor_zero] at parts
  omega

/-- **The place of a double** in the order is its word. -/
theorem toInt_word (d : Double) : d.word.toInt = d.rank := by
  have most : d.bits.toNat < 2 ^ 64 := d.bits.toNat_lt
  have top : d.bits.toBitVec.msb = d.negative := BitVec.msb_eq_decide _
  have half : signBit = 2 ^ 63 := rfl
  have value : d.word.toNat = d.bits.toNat ^^^ _ := BitVec.toNat_xor _ _
  rw [mask_eq, top] at value
  cases sign : d.negative with
  | false =>
    have small : d.bits.toNat < 2 ^ 63 := by
      simpa [negative, half] using sign
    have same : d.word.toNat = d.bits.toNat := by
      rw [value, sign]
      exact Nat.xor_zero _
    rw [BitVec.toInt_eq_toNat_cond, same, if_pos (by omega), rank, sign, magnitude, half,
      Nat.mod_eq_of_lt small]
    rfl
  | true =>
    have large : 2 ^ 63 ≤ d.bits.toNat := by
      simpa [negative, half] using sign
    have turned : d.word.toNat = 3 * 2 ^ 63 - 1 - d.bits.toNat := by
      rw [value, sign]
      exact xor_below_sign (by omega)
    rw [BitVec.toInt_eq_toNat_cond, turned, if_neg (by omega), rank, sign, magnitude, half]
    simp only [if_true]
    omega

/-- **Numbers come in the order of their values.** -/
theorem order_eq_lt_of_below {a b : Double} (h : a.below b = true) : order a b = .lt := by
  unfold below at h
  simp only [Bool.and_eq_true, decide_eq_true_eq] at h
  have less := h.2
  unfold order rank
  rw [Int.compare_eq_lt]
  cases ha : a.negative <;> cases hb : b.negative <;>
    simp only [ha, hb, if_true, if_false, Bool.false_eq_true] at less ⊢ <;> omega

end ChangeRelay.Double
