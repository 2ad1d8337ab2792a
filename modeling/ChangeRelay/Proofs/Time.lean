import ChangeRelay.Proofs.Number.Word
import ChangeRelay.Time
import Mathlib.Algebra.Order.Ring.Nat

/-!
# Lengths of time in words, and waits

A length of time is kept in words: 64 bits of seconds, and less than a second of nanoseconds beside
them in 32 bits. To take it so many times as long, the nanoseconds are multiplied and whole seconds
carried over to the product of the seconds, which may overflow; then the longest length of time
stands for it.

Timers count whole milliseconds, so waits that follow each other end somewhat later than they should.

* **`Timespan.times?_spec`**: a multiple of a length of time is exact, or the longest there is.
* `Timespan.duration_min`: words are compared as their lengths of time are.
* `Duration.le_of_mem_scanl_dueAt`: when waits that follow each other are over.
-/

namespace ChangeRelay

/-! ## Lengths of time -/

/-- A length of time in words: whole seconds, and less than a second beside them. -/
structure Timespan where
  seconds : BitVec 64
  nanos : BitVec 32
  lt : nanos.toNat < 1000000000
deriving DecidableEq, Repr

namespace Timespan

/-- The same in nanoseconds. -/
def duration (t : Timespan) : Duration := .ofSeconds t.seconds.toNat + t.nanos.toNat

theorem duration_eq (t : Timespan) :
    t.duration = t.seconds.toNat * 1000000000 + t.nanos.toNat := rfl

def longest : Timespan := ⟨.allOnes 64, 999999999, by decide⟩

theorem duration_longest : longest.duration = Duration.longest := by decide

theorem duration_le_longest (t : Timespan) : t.duration ≤ Duration.longest := by
  have seconds := t.seconds.isLt
  have nanos := t.lt
  change t.seconds.toNat * 1000000000 + t.nanos.toNat ≤ 2 ^ 64 * 1000000000 - 1
  omega

/-- Fewer seconds, or as many and no more nanoseconds. -/
def noLonger (a b : Timespan) : Bool :=
  a.seconds < b.seconds || (a.seconds == b.seconds && a.nanos ≤ b.nanos)

instance : Min Timespan := ⟨fun a b => if a.noLonger b then a else b⟩

theorem noLonger_iff (a b : Timespan) : a.noLonger b = true ↔ a.duration ≤ b.duration := by
  have nanos := a.lt
  have nanos' := b.lt
  change _ ↔ a.seconds.toNat * 1000000000 + a.nanos.toNat ≤
    b.seconds.toNat * 1000000000 + b.nanos.toNat
  simp only [noLonger, Bool.or_eq_true, Bool.and_eq_true, decide_eq_true_eq, beq_iff_eq,
    BitVec.lt_def, BitVec.le_def, ← BitVec.toNat_inj]
  omega

theorem duration_min (a b : Timespan) : (min a b).duration = min a.duration b.duration := by
  change (if a.noLonger b then a else b).duration = _
  split
  · next h => exact (min_eq_left ((noLonger_iff a b).mp h)).symm
  · next h => exact (min_eq_right (Nat.le_of_not_le (mt (noLonger_iff a b).mpr h))).symm

/-- What is left of nanoseconds beside their whole seconds. -/
theorem toNat_rest (nanos : BitVec 64) :
    ((nanos % 1000000000).setWidth 32).toNat = nanos.toNat % 1000000000 := by
  have small : nanos.toNat % 1000000000 < 1000000000 := Nat.mod_lt _ (by decide)
  rw [BitVec.toNat_setWidth, BitVec.toNat_umod]
  exact Nat.mod_eq_of_lt (by change nanos.toNat % 1000000000 < 2 ^ 32; omega)

theorem rest_lt (nanos : BitVec 64) :
    ((nanos % 1000000000).setWidth 32).toNat < 1000000000 :=
  toNat_rest nanos ▸ Nat.mod_lt _ (by decide)

/-- The seconds of a multiple, with those that are carried over to them. -/
def seconds? (t : Timespan) (n : BitVec 32) (carry : BitVec 64) : Option (BitVec 64) :=
  (word? 64 (t.seconds.toNat * n.toNat)).bind fun seconds => word? 64 (seconds.toNat + carry.toNat)

theorem seconds?_eq (t : Timespan) (n : BitVec 32) (carry : BitVec 64) :
    t.seconds? n carry = word? 64 (t.seconds.toNat * n.toNat + carry.toNat) :=
  word?_bind (Nat.le_add_right _ _) fun _ product => by rw [product]

/-- `n` times as long, or the longest if there are too many seconds. The nanoseconds are multiplied
first, and nothing comes of it if their product is no word. -/
def times? (t : Timespan) (n : BitVec 32) : Option Timespan :=
  (word? 64 (t.nanos.toNat * n.toNat)).map fun nanos =>
    match t.seconds? n (nanos / 1000000000) with
    | some seconds => ⟨seconds, (nanos % 1000000000).setWidth 32, rest_lt nanos⟩
    | none => longest

/-- Less than a second of nanoseconds times a word of 32 bits is a word of 64 bits. -/
theorem nanos_mul (t : Timespan) (n : BitVec 32) :
    ∃ w, word? 64 (t.nanos.toNat * n.toNat) = some w ∧ w.toNat = t.nanos.toNat * n.toNat := by
  have product : t.nanos.toNat * n.toNat < 2 ^ 64 :=
    calc t.nanos.toNat * n.toNat ≤ 1000000000 * 2 ^ 32 := Nat.mul_le_mul t.lt.le n.isLt.le
      _ < 2 ^ 64 := by decide
  rcases word?_cases 64 (t.nanos.toNat * n.toNat) with ⟨-, fits⟩ | ⟨large, -⟩
  · exact fits
  · exact absurd product (Nat.not_lt.mpr large)

/-- A multiple, with the nanoseconds carried over to the seconds. -/
theorem duration_mul (t : Timespan) (n : Nat) : t.duration * n =
    (t.seconds.toNat * n + t.nanos.toNat * n / 1000000000) * 1000000000 +
      t.nanos.toNat * n % 1000000000 :=
  calc t.duration * n
      = t.seconds.toNat * n * 1000000000 + t.nanos.toNat * n := by
        rw [duration_eq, Nat.add_mul, Nat.mul_right_comm]
    _ = _ := by omega

/-- **A multiple** of a length of time, or the longest there is. What is not guarded does not
overflow. -/
theorem times?_spec (t : Timespan) (n : BitVec 32) :
    ∃ d, t.times? n = some d ∧ d.duration = min (t.duration * n.toNat) Duration.longest := by
  obtain ⟨nanos, some_nanos, nanos_eq⟩ := t.nanos_mul n
  have carry : (nanos / 1000000000).toNat = t.nanos.toNat * n.toNat / 1000000000 := by
    rw [BitVec.toNat_udiv, nanos_eq]
    rfl
  have rest := toNat_rest nanos
  rw [nanos_eq] at rest
  rw [times?, some_nanos, Option.map_some, seconds?_eq, carry, duration_mul]
  refine ⟨_, rfl, ?_⟩
  rcases word?_cases 64 (t.seconds.toNat * n.toNat + t.nanos.toNat * n.toNat / 1000000000) with
    ⟨-, seconds, some_seconds, toNat_seconds⟩ | ⟨large, none_⟩
  · rw [some_seconds, ← toNat_seconds, ← rest]
    exact (min_eq_left (duration_le_longest ⟨seconds, _, rest_lt nanos⟩)).symm
  · rw [none_, duration_longest]
    refine (min_eq_right ?_).symm
    change 2 ^ 64 * 1000000000 - 1 ≤ _
    omega

end Timespan

/-! ## Waits -/

namespace Duration

theorem toMillis_mono : Monotone toMillis := fun _ _ h =>
  Nat.div_le_div_right (Nat.add_le_add_right h _)

/-- A wait that is cut down to thirty years is longer than that. -/
theorem thirtyYears_le {now d : Nat} (soon : now ≤ lastTick)
    (far : ofSeconds 0x8000000000000000 ≤ ofMillis now + d) :
    thirtyYears ≤ d := by
  have soon : now ≤ 2 ^ 64 - 3 := soon
  have far : 0x8000000000000000 * 1000000000 ≤ now * 1000000 + d := far
  have years : 30 * 365 * 24 * 60 * 60 * 1000000000 ≤ d := by omega
  exact years

/-- A wait ends at the end of its last millisecond, or before. -/
theorem dueAt_le {now : Nat} (soon : now ≤ lastTick) (d : Duration) :
    d.dueAt now ≤ now + d.toMillis := by
  refine Nat.le_trans (Nat.min_le_left _ _) (Nat.add_le_add_left (toMillis_mono ?_) now)
  split
  · next far => exact thirtyYears_le soon far
  · exact Nat.le_refl _

theorem dueAt_le_lastTick (now : Nat) (d : Duration) : d.dueAt now ≤ lastTick :=
  Nat.min_le_right _ _

/-- Waits that follow each other end when their milliseconds are over, or before. -/
theorem le_of_mem_scanl_dueAt {now t : Nat} {ds : List Duration} (soon : now ≤ lastTick)
    (mem : t ∈ ds.scanl (fun time d => d.dueAt time) now) :
    t ≤ now + (ds.map toMillis).sum := by
  induction ds generalizing now with
  | nil => exact Nat.le_of_eq (List.mem_singleton.mp mem)
  | cons d ds ih =>
    rw [List.scanl_cons, List.mem_cons] at mem
    rw [List.map_cons, List.sum_cons, ← Nat.add_assoc]
    rcases mem with rfl | mem
    · exact Nat.le_trans (Nat.le_add_right _ _) (Nat.le_add_right _ _)
    · exact Nat.le_trans (ih (dueAt_le_lastTick now d) mem)
        (Nat.add_le_add_right (dueAt_le soon d) _)

end Duration

end ChangeRelay
