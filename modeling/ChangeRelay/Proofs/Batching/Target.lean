import ChangeRelay.Batching.Settings
import Mathlib.Order.MinMax

/-!
# How targets follow throughput

The target of a batch is set by the level of throughput, by `parameters` of an
`AdaptiveBatchConfig`. Every size lies between the smallest and
the largest, and every wait between the shortest and the longest, where the lower bound counts if
the two are the wrong way round.

Waits grow with the level, and so do sizes, but for one step: at low throughput the smallest size
is doubled, while the levels above take a part of the span between smallest and largest. Where that
part is less than the smallest size, doubling overtakes it.

* `toNat_size`: the sizes as numbers, if the smallest can be doubled in a word.
* `size_le_most`, `one_le_size`: a target is within the bounds.
* `Fits.target`: if there can be memory for the largest batch, then for every other.
* **`grades_of_doubles`**: what grows with the level, and where sizes fail to.
* **`low_above_medium`**: they do fail to, at a span of five and a smallest size of ten.
-/

namespace ChangeRelay.Batching.Settings

variable {s : Settings}

/-- The smallest size can be doubled in a word. -/
def Doubles (s : Settings) : Prop := s.minSize.toNat * 2 < UInt64.size

instance (s : Settings) : Decidable s.Doubles := inferInstanceAs (Decidable (_ < _))

/-! ## Sizes -/

theorem toNat_max (a b : UInt64) : (max a b).toNat = max a.toNat b.toNat := by
  change (if a ≤ b then b else a).toNat = _
  split
  · next h => exact (max_eq_right (UInt64.le_iff_toNat_le.mp h)).symm
  · next h => exact (max_eq_left (Nat.le_of_not_le (mt UInt64.le_iff_toNat_le.mpr h))).symm

theorem toNat_min (a b : UInt64) : (min a b).toNat = min a.toNat b.toNat := by
  change (if a ≤ b then a else b).toNat = _
  split
  · next h => exact (min_eq_left (UInt64.le_iff_toNat_le.mp h)).symm
  · next h => exact (min_eq_right (Nat.le_of_not_le (mt UInt64.le_iff_toNat_le.mpr h))).symm

theorem toNat_least (s : Settings) : s.least.toNat = max s.minSize.toNat 1 := toNat_max _ _

theorem toNat_most (s : Settings) : s.most.toNat = max s.maxSize.toNat s.least.toNat :=
  toNat_max _ _

theorem least_le_most (s : Settings) : s.least.toNat ≤ s.most.toNat :=
  toNat_most s ▸ Nat.le_max_right _ _

theorem one_le_least (s : Settings) : 1 ≤ s.least.toNat := toNat_least s ▸ Nat.le_max_right _ _

/-- A part of the span between the smallest size and the largest, above the smallest. -/
theorem toNat_above (s : Settings) (n : UInt64) :
    (s.least + (s.most - s.least) / n).toNat =
      s.least.toNat + (s.most.toNat - s.least.toNat) / n.toNat := by
  have ordered := least_le_most s
  have word := s.most.toNat_lt
  have part := Nat.div_le_self (s.most.toNat - s.least.toNat) n.toNat
  rw [UInt64.toNat_add, UInt64.toNat_div, UInt64.toNat_sub_of_le _ _
    (UInt64.le_iff_toNat_le.mpr ordered), Nat.mod_eq_of_lt]
  omega

/-- **The sizes** at the five levels, as numbers. -/
theorem toNat_size (doubles : s.Doubles) (l : Level) :
    (s.target l).size.toNat = match l with
      | .idle => s.least.toNat
      | .low => min (s.least.toNat * 2) s.most.toNat
      | .medium => s.least.toNat + (s.most.toNat - s.least.toNat) / 4
      | .high => s.least.toNat + (s.most.toNat - s.least.toNat) / 2
      | .burst => s.most.toNat := by
  cases l with
  | idle | burst => rfl
  | medium => exact toNat_above s 4
  | high => exact toNat_above s 2
  | low =>
    have least := toNat_least s
    have double : (s.least * 2).toNat = s.least.toNat * 2 := by
      rw [UInt64.toNat_mul]
      refine Nat.mod_eq_of_lt ?_
      have word : s.minSize.toNat * 2 < 2 ^ 64 := doubles
      change s.least.toNat * 2 < 2 ^ 64
      omega
    exact (toNat_min _ _).trans (by rw [double])

/-- No target is above the largest size, whether the smallest can be doubled or not. -/
theorem size_le_most (s : Settings) (l : Level) : (s.target l).size.toNat ≤ s.most.toNat := by
  have ordered := least_le_most s
  cases l with
  | idle => exact ordered
  | low => exact toNat_min _ _ ▸ Nat.min_le_right _ _
  | medium =>
    have size : (s.target .medium).size.toNat = _ := toNat_above s 4
    have part := Nat.div_le_self (s.most.toNat - s.least.toNat) (4 : UInt64).toNat
    omega
  | high =>
    have size : (s.target .high).size.toNat = _ := toNat_above s 2
    have part := Nat.div_le_self (s.most.toNat - s.least.toNat) (2 : UInt64).toNat
    omega
  | burst => exact Nat.le_refl _

theorem least_le_size (doubles : s.Doubles) (l : Level) :
    s.least.toNat ≤ (s.target l).size.toNat := by
  have ordered := least_le_most s
  have size := toNat_size doubles l
  cases l <;> simp only at size <;> omega

/-- A batch is to have an item at least. -/
theorem one_le_size (doubles : s.Doubles) (l : Level) : 1 ≤ (s.target l).size.toNat :=
  Nat.le_trans (one_le_least s) (least_le_size doubles l)

/-! ## Memory -/

/-- A batcher with these settings can have the target of this level: that of an idle batcher if its
targets do not follow throughput, and any other if they do. -/
def Reaches (s : Settings) (l : Level) : Prop := s.adaptive = true ∨ l = .idle

/-- There can be memory for every batch, if an item takes `width` bytes. -/
def Fits (s : Settings) (width : Nat) : Prop :=
  (if s.adaptive then s.most else s.least).toNat * width ≤ maxBlock

instance (s : Settings) (width : Nat) : Decidable (s.Fits width) :=
  inferInstanceAs (Decidable (_ ≤ _))

theorem Fits.target {width : Nat} (fits : s.Fits width) {l : Level} (reaches : s.Reaches l) :
    (s.target l).fits width = true := by
  refine decide_eq_true (Nat.le_trans (Nat.mul_le_mul_right width ?_) fits)
  rcases reaches with adaptive | rfl
  · rw [if_pos adaptive]
    exact size_le_most s l
  · split
    · exact least_le_most s
    · exact Nat.le_refl _

/-! ## Waits -/

theorem minWait_le_bounded (s : Settings) (millis : Nat) : s.minWait ≤ s.bounded millis :=
  le_min (le_max_right _ _) (le_max_right _ _)

theorem bounded_le (s : Settings) (millis : Nat) :
    s.bounded millis ≤ max s.minWait s.maxWait :=
  (min_le_right _ _).trans (max_comm _ _).le

theorem bounded_mono (s : Settings) {millis millis' : Nat} (h : millis ≤ millis') :
    s.bounded millis ≤ s.bounded millis' :=
  min_le_min_right _ (max_le_max_right _ (Nat.mul_le_mul_right _ h))

/-- How long to wait at a level if the bounds allow it, in milliseconds. -/
def millis : Level → Nat
  | .idle => 0
  | .low => 1
  | .medium => 10
  | .high => 25
  | .burst => 50

/-- **The waits** at the five levels: when idle, the shortest there is. -/
theorem wait_eq (s : Settings) (l : Level) : (s.target l).wait = s.bounded (millis l) := by
  cases l with
  | idle =>
    have shortest : s.bounded 0 = min (max 0 s.minWait) (max s.maxWait s.minWait) := rfl
    rw [millis, shortest, max_eq_right (Nat.zero_le _), min_eq_left (le_max_right _ _)]
    rfl
  | low | medium | high | burst => rfl

theorem millis_mono {l l' : Level} (h : l ≤ l') : millis l ≤ millis l' := by
  revert h
  cases l <;> cases l' <;> decide

/-! ## What grows with the level -/

/-- At the lower of two levels the smallest size is doubled, and at the higher one the part of the
span that is taken is less than the smallest size. -/
def Overtakes (s : Settings) : Level → Level → Prop
  | .low, .medium => s.least < s.most ∧ (s.most - s.least) / 4 < s.least
  | .low, .high => s.least < s.most ∧ (s.most - s.least) / 2 < s.least
  | _, _ => False

instance (s : Settings) (l l' : Level) : Decidable (s.Overtakes l l') := by
  unfold Overtakes
  split <;> infer_instance

/-- Targets within their bounds that grow with the level, but for doubled sizes. -/
structure Grades (s : Settings) : Prop where
  sizes : ∀ l, max s.minSize 1 ≤ (s.target l).size ∧
    (s.target l).size ≤ max (max s.maxSize s.minSize) 1
  waits : ∀ l, s.minWait ≤ (s.target l).wait ∧ (s.target l).wait ≤ max s.minWait s.maxWait
  waits_mono : ∀ {l l' : Level}, l ≤ l' → (s.target l).wait ≤ (s.target l').wait
  sizes_mono_iff : ∀ {l l' : Level}, l ≤ l' →
    ((s.target l).size ≤ (s.target l').size ↔ ¬s.Overtakes l l')

theorem sizes_mono_iff (doubles : s.Doubles) {l l' : Level} (h : l ≤ l') :
    (s.target l).size ≤ (s.target l').size ↔ ¬s.Overtakes l l' := by
  have ordered := least_le_most s
  have positive := one_le_least s
  have part : ∀ n : UInt64, ((s.most - s.least) / n).toNat =
      (s.most.toNat - s.least.toNat) / n.toNat := by
    intro n
    rw [UInt64.toNat_div, UInt64.toNat_sub_of_le _ _ (UInt64.le_iff_toNat_le.mpr ordered)]
  have four : (4 : UInt64).toNat = 4 := rfl
  have two : (2 : UInt64).toNat = 2 := rfl
  have ranked : l.rank ≤ l'.rank := h
  rw [UInt64.le_iff_toNat_le, toNat_size doubles, toNat_size doubles]
  cases l <;> cases l' <;>
    simp only [Level.rank, Overtakes, UInt64.lt_iff_toNat_lt, part, four, two, not_false_eq_true,
      iff_true] at ranked ⊢ <;>
    omega

/-- **What grows with the level**: the waits, and the sizes unless a doubled one overtakes the part
of the span that a higher level takes. -/
theorem grades_of_doubles (doubles : s.Doubles) : s.Grades where
  sizes := by
    intro l
    have least := toNat_least s
    have most := toNat_most s
    have lower := least_le_size doubles l
    have upper := size_le_most s l
    have one : (1 : UInt64).toNat = 1 := rfl
    rw [UInt64.le_iff_toNat_le, UInt64.le_iff_toNat_le, toNat_max, toNat_max, toNat_max, one]
    omega
  waits := fun l => wait_eq s l ▸ ⟨minWait_le_bounded s _, bounded_le s _⟩
  waits_mono := by
    intro l l' h
    rw [wait_eq, wait_eq]
    exact bounded_mono s (millis_mono h)
  sizes_mono_iff := sizes_mono_iff doubles

/-- Sizes from ten to fifteen. -/
def narrow : Settings := { default with minSize := 10, maxSize := 15 }

/-- The sample: a doubled size of fifteen overtakes the next two, which are eleven and twelve. -/
theorem grades_sample : narrow.Doubles ∧ narrow.Grades ∧ narrow.Overtakes .low .medium ∧
    narrow.Overtakes .low .high ∧ (narrow.target .low).size = 15 ∧
    (narrow.target .medium).size = 11 ∧ (narrow.target .high).size = 12 :=
  ⟨by decide, grades_of_doubles (by decide), by decide, by decide, rfl, rfl, rfl⟩

/-- **Sizes do not always grow with the level.** -/
theorem low_above_medium : narrow.Doubles ∧ Level.low ≤ Level.medium ∧
    ¬(narrow.target .low).size ≤ (narrow.target .medium).size := by
  decide

end ChangeRelay.Batching.Settings
