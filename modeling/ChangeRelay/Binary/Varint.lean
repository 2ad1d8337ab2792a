/-!
# Numbers of varying length

A number is written seven bits to a byte, the lowest first; every byte but the last has its high
bit set. At most ten bytes are read, for at most 64 bits.

Integers, lengths and keys of the wire types are written so.

* `read_write`: a 64-bit number is read back from what is written for it, whatever follows.
-/

namespace ChangeRelay.Varint

/-- The bytes of a number. -/
def write (n : Nat) : List UInt8 :=
  if n < 128 then [UInt8.ofNat n] else UInt8.ofNat (n % 128 + 128) :: write (n / 128)
termination_by n

/-- A number of at most `most` bytes. -/
def readAtMost : Nat → List UInt8 → Option (Nat × List UInt8)
  | 0, _ => none
  | _, [] => none
  | most + 1, b :: bs =>
    if b < 128 then some (b.toNat, bs)
    else (readAtMost most bs).map fun (n, rest) => (b.toNat - 128 + 128 * n, rest)

/-- A number of 64 bits. -/
def read (bs : List UInt8) : Option (UInt64 × List UInt8) :=
  (readAtMost 10 bs).bind fun (n, rest) =>
    if n < UInt64.size then some (UInt64.ofNat n, rest) else none

/-! ## Laws -/

theorem toNat_ofNat {n : Nat} (h : n < 256) : (UInt8.ofNat n).toNat = n :=
  UInt8.toNat_ofNat_of_lt' h

theorem lt_128 {b : UInt8} {n : Nat} (e : b.toNat = n) (h : n < 128) : b < 128 := by
  rw [UInt8.lt_iff_toNat_lt, e]
  exact h

theorem readAtMost_write {most n : Nat} (h : n < Nat.pow 128 (most + 1)) (rest : List UInt8) :
    readAtMost (most + 1) (write n ++ rest) = some (n, rest) := by
  induction most generalizing n with
  | zero =>
    have hn : n < 128 := by simpa using h
    have e : (UInt8.ofNat n).toNat = n := toNat_ofNat (by omega)
    have hlt : UInt8.ofNat n < 128 := lt_128 e hn
    unfold write
    rw [if_pos hn]
    simp [readAtMost, hlt, e]
  | succ most ih =>
    unfold write
    split
    · next hn =>
      have e : (UInt8.ofNat n).toNat = n := toNat_ofNat (by omega)
      have hlt : UInt8.ofNat n < 128 := lt_128 e hn
      simp [readAtMost, hlt, e]
    · next hn =>
      have : (UInt8.ofNat (n % 128 + 128)).toNat = n % 128 + 128 := toNat_ofNat (by omega)
      have hlt : ¬UInt8.ofNat (n % 128 + 128) < 128 := by
        rw [UInt8.lt_iff_toNat_lt, this]
        have : (128 : UInt8).toNat = 128 := rfl
        omega
      have hd : n / 128 < Nat.pow 128 (most + 1) := by
        have : Nat.pow 128 (most + 1 + 1) = Nat.pow 128 (most + 1) * 128 := rfl
        exact Nat.div_lt_of_lt_mul (by omega)
      simp only [List.cons_append, readAtMost, hlt, if_false, ih hd, Option.map_some, this]
      congr 2
      omega

/-- A 64-bit number is read back from what is written for it, whatever follows. -/
theorem read_write (n : UInt64) (rest : List UInt8) :
    read (write n.toNat ++ rest) = some (n, rest) := by
  have h := n.toNat_lt
  unfold read
  rw [readAtMost_write (Nat.lt_trans h (by decide)) rest]
  simp [h]

theorem length_readAtMost : ∀ {most : Nat} {bs : List UInt8} {n : Nat} {rest : List UInt8},
    readAtMost most bs = some (n, rest) → rest.length < bs.length
  | 0, _, _, _, h => by simp [readAtMost] at h
  | _ + 1, [], _, _, h => by simp [readAtMost] at h
  | most + 1, b :: bs, n, rest, h => by
    unfold readAtMost at h
    split at h
    · simp only [Option.some.injEq, Prod.mk.injEq] at h
      simp [h.2]
    · simp only [Option.map_eq_some_iff, Prod.exists, Prod.mk.injEq] at h
      obtain ⟨_, _, hr, -, rfl⟩ := h
      exact Nat.lt_succ_of_lt (length_readAtMost hr)

theorem length_read {bs : List UInt8} {n : UInt64} {rest : List UInt8}
    (h : read bs = some (n, rest)) : rest.length < bs.length := by
  simp only [read, Option.bind_eq_some_iff, Prod.exists, Option.ite_none_right_eq_some,
    Option.some.injEq, Prod.mk.injEq] at h
  obtain ⟨_, _, hr, _, -, rfl⟩ := h
  exact length_readAtMost hr

end ChangeRelay.Varint
