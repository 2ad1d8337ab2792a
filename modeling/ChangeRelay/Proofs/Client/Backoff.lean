import ChangeRelay.Proofs.Client.Attempts
import ChangeRelay.Proofs.Time
import Mathlib.Algebra.Order.BigOperators.Group.List
import Mathlib.Algebra.Order.Ring.Nat

/-!
# How delays grow

This is about `delay` of `RetryPolicy`, and about the delays in a `run` of it.

A delay is the first delay times a power of two, up to a cap. It is worked out in words: the power in
32 bits, by squaring, and the product in seconds and nanoseconds. Where a word is too small the
largest one stands for it, twice, before the cap is looked at. Neither makes a difference but that
the power stops growing: a delay in words is the one in exact numbers.

* `factor_eq`, `toNat_twoTo`: the power, as a number and as a word.
* **`delay?_spec`**: a delay in words is the delay.
* `delay_succ`: delays double, up to the cap.
* `sum_delays_le`, `times_le`: how long a run sleeps at most, and when its last attempt is made.
* **`backs_off`**: all of this of one policy.
-/

namespace ChangeRelay.Client.RetryPolicy

/-! ## Powers -/

/-- Two to a power in a word of 32 bits, or the largest such word. -/
def twoTo (retry : BitVec 32) : BitVec 32 := (powFrom? 1 2 retry.toNat).getD (.allOnes 32)

theorem factor_eq (retry : Nat) : factor retry = min (2 ^ retry) (2 ^ 32 - 1) := by
  unfold factor
  split
  · next less =>
    have power : 2 ^ retry < 2 ^ 32 := Nat.pow_lt_pow_right (by decide) less
    rw [Nat.one_shiftLeft, min_eq_left (Nat.le_sub_one_of_lt power)]
  · next more =>
    have power : 2 ^ 32 ≤ 2 ^ retry := Nat.pow_le_pow_right (by decide) (Nat.not_lt.mp more)
    exact (min_eq_right (Nat.le_trans (Nat.sub_le _ 1) power)).symm

theorem toNat_twoTo (retry : BitVec 32) : (twoTo retry).toNat = factor retry.toNat := by
  have power : powFrom? 1 2 retry.toNat = word? 32 (2 ^ retry.toNat) :=
    (powFrom?_eq (by decide) (by decide) _).trans (congrArg _ (Nat.one_mul _))
  rw [twoTo, power, factor_eq]
  rcases word?_cases 32 (2 ^ retry.toNat) with ⟨fits, w, some_w, w_eq⟩ | ⟨large, none_⟩
  · rw [some_w, min_eq_left (Nat.le_sub_one_of_lt fits)]
    exact w_eq
  · rw [none_, min_eq_right (Nat.le_trans (Nat.sub_le _ 1) large)]
    rfl

/-! ## Delays -/

/-- A policy in words. -/
structure Words where
  maxRetries : BitVec 32
  initialDelay : Timespan
  maxDelay : Timespan
deriving DecidableEq, Repr

namespace Words

def policy (w : Words) : RetryPolicy :=
  ⟨w.maxRetries.toNat, w.initialDelay.duration, w.maxDelay.duration⟩

/-- The delay before a retry. There is none if something overflows that is not guarded. -/
def delay? (w : Words) (retry : BitVec 32) : Option Timespan :=
  (w.initialDelay.times? (twoTo retry)).map fun d => min d w.maxDelay

/-- **A delay in words** is the delay. -/
theorem delay?_spec (w : Words) (retry : BitVec 32) :
    ∃ d, w.delay? retry = some d ∧ d.duration = w.policy.delay retry.toNat := by
  obtain ⟨d, some_d, d_eq⟩ := w.initialDelay.times?_spec (twoTo retry)
  refine ⟨min d w.maxDelay, by rw [delay?, some_d]; rfl, ?_⟩
  rw [Timespan.duration_min, d_eq, toNat_twoTo]
  rfl

end Words

variable {p : RetryPolicy}

/-- A cap that is a length of time is all that cuts a product down. -/
theorem delay_eq (fits : p.maxDelay ≤ Duration.longest) (retry : Nat) :
    p.delay retry = min (p.initialDelay * min (2 ^ retry) (2 ^ 32 - 1)) p.maxDelay := by
  rw [delay, factor_eq, min_assoc, min_eq_right fits]

/-- **Delays double**, up to the cap, as long as the power is a word. -/
theorem delay_succ (fits : p.maxDelay ≤ Duration.longest) {retry : Nat} (less : retry < 31) :
    p.delay (retry + 1) = min (2 * p.delay retry) p.maxDelay := by
  have word {r : Nat} (h : r ≤ 31) : min (2 ^ r) (2 ^ 32 - 1) = 2 ^ r := by
    have power : 2 ^ r ≤ 2 ^ 31 := Nat.pow_le_pow_right (by decide) h
    exact min_eq_left (Nat.le_trans power (by decide))
  calc p.delay (retry + 1)
      = min (p.initialDelay * 2 ^ (retry + 1)) p.maxDelay := by rw [delay_eq fits, word less]
    _ = min (2 * (p.initialDelay * 2 ^ retry)) p.maxDelay := by
        rw [Nat.pow_succ', Nat.mul_left_comm]
    _ = min (min (2 * (p.initialDelay * 2 ^ retry)) (2 * p.maxDelay)) p.maxDelay := by
        rw [min_assoc, min_eq_right (Nat.le_mul_of_pos_left _ (by decide))]
    _ = min (2 * p.delay retry) p.maxDelay := by
        rw [delay_eq fits, word (Nat.le_of_lt less), Nat.mul_min_mul_left]

/-! ## Runs -/

section Runs

variable {σ α : Type} {call : σ → Except Failure α × σ} {s : σ}

theorem delay_le_of_mem {d : Duration} (mem : d ∈ (p.run call s).delays) : d ≤ p.maxDelay := by
  rw [run, delays_eq] at mem
  obtain ⟨i, -, rfl⟩ := List.mem_map.mp mem
  exact p.delay_le _

/-- Delays add up to no more than the longest one as often as a call can be retried, whatever they
are counted in. -/
theorem sum_delays_le {f : Duration → Nat} (mono : Monotone f) :
    ((p.run call s).delays.map f).sum ≤ p.maxRetries * f p.maxDelay :=
  calc ((p.run call s).delays.map f).sum
      ≤ ((p.run call s).delays.map f).length * f p.maxDelay := by
        refine List.sum_le_card_nsmul _ _ fun n mem => ?_
        obtain ⟨d, delayed, rfl⟩ := List.mem_map.mp mem
        exact mono (delay_le_of_mem delayed)
    _ ≤ p.maxRetries * f p.maxDelay := by
        rw [List.length_map]
        exact Nat.mul_le_mul_right _ (Nat.le_of_succ_le_succ (count_run p call s).2)

/-- Every attempt is made when all the delays are over, or before. -/
theorem times_le {t : Nat} (mem : t ∈ (p.run call s).times) :
    t ≤ p.maxRetries * p.maxDelay.toMillis := by
  have slept := Duration.le_of_mem_scanl_dueAt (Nat.zero_le _) mem
  rw [Nat.zero_add] at slept
  exact Nat.le_trans slept (sum_delays_le Duration.toMillis_mono)

end Runs

/-! ## One policy -/

/-- How the delays of a policy grow, and how long is slept. -/
structure BacksOff (w : Words) : Prop where
  /-- Nothing overflows, and words are exact: -/
  words : ∀ retry, ∃ d, w.delay? retry = some d ∧ d.duration = w.policy.delay retry.toNat
  /-- a delay is the first one times a power of two, or times the largest word, up to the cap. -/
  delay : ∀ retry, w.policy.delay retry =
    min (w.initialDelay.duration * min (2 ^ retry) (2 ^ 32 - 1)) w.maxDelay.duration
  /-- No delay is shorter than the one before -/
  mono : ∀ {retry retry'}, retry ≤ retry' → w.policy.delay retry ≤ w.policy.delay retry'
  /-- or longer than the cap, -/
  capped : ∀ retry, w.policy.delay retry ≤ w.maxDelay.duration
  /-- and until the power is no word any more they double. -/
  doubles : ∀ {retry}, retry < 31 →
    w.policy.delay (retry + 1) = min (2 * w.policy.delay retry) w.maxDelay.duration
  /-- A run sleeps no longer than the cap as often as it retries, -/
  slept : ∀ {σ α : Type} (call : σ → Except Failure α × σ) (s : σ),
    (w.policy.run call s).delays.sum ≤ w.maxRetries.toNat * w.maxDelay.duration
  /-- also in the whole milliseconds of timers. -/
  due : ∀ {σ α : Type} (call : σ → Except Failure α × σ) (s : σ),
    ∀ t ∈ (w.policy.run call s).times, t ≤ w.maxRetries.toNat * w.maxDelay.duration.toMillis

/-- **Delays double up to the cap** and stay there, for every policy in words. -/
theorem backs_off (w : Words) : BacksOff w where
  words := w.delay?_spec
  delay := delay_eq w.maxDelay.duration_le_longest
  mono := w.policy.delay_mono
  capped := w.policy.delay_le
  doubles := delay_succ w.maxDelay.duration_le_longest
  slept := by
    intro σ α call s
    have slept : ((w.policy.run call s).delays.map id).sum ≤ _ := sum_delays_le monotone_id
    rwa [List.map_id] at slept
  due := fun _ _ _ mem => times_le mem

/-- From retry 32 on the largest word stands for the power, so the delay is not quite doubled. -/
example : (⟨40, 1, Duration.longest⟩ : RetryPolicy).delay 31 = 2147483648 ∧
    (⟨40, 1, Duration.longest⟩ : RetryPolicy).delay 32 = 4294967295 := by decide

end ChangeRelay.Client.RetryPolicy
