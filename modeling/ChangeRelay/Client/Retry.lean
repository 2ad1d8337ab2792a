import ChangeRelay.Client.Failure
import ChangeRelay.Time

/-!
# Retrying calls

A call that fails in a way that may pass is attempted again after a delay. The delays double from
one retry to the next, up to a cap, and the number of retries is bounded. A reply that says that
something was refused is a reply, and is not retried.

Model of `RetryPolicy`, with its `delay` and `run`; what is retried is any step of a state.

* `delay_mono`: no delay is shorter than the one before.
* `delay_le`: no delay is longer than the cap.
-/

namespace ChangeRelay.Client

/-- How often, and how patiently, calls are retried. -/
structure RetryPolicy where
  /-- The number of retries after the first attempt. -/
  maxRetries : Nat
  /-- The delay before the first retry. -/
  initialDelay : Duration
  maxDelay : Duration
deriving DecidableEq, Repr

/-- What a call came to after its attempts. -/
structure Attempted (σ α : Type) where
  outcome : Except Failure α
  state : σ
  /-- The delays between the attempts, in order. -/
  delays : List Duration

namespace RetryPolicy

def default : RetryPolicy := ⟨3, .ofMillis 100, .ofSeconds 5⟩

instance : Inhabited RetryPolicy := ⟨default⟩

/-- A single attempt. -/
def none : RetryPolicy := { default with maxRetries := 0 }

/-- What the first delay is multiplied with for a later retry: a power of two of 32 bits. -/
def factor (retry : Nat) : Nat := if retry < 32 then 1 <<< retry else UInt32.size - 1

/-- The delay before a retry, the first of which is number 0. -/
def delay (p : RetryPolicy) (retry : Nat) : Duration :=
  min (min (p.initialDelay * factor retry) Duration.longest) p.maxDelay

/-- The attempts from a retry on, with so many retries left. -/
def attempts {σ α : Type} (p : RetryPolicy) (call : σ → Except Failure α × σ) :
    Nat → Nat → σ → Attempted σ α
  | 0, _, s =>
    let (outcome, s) := call s
    ⟨outcome, s, []⟩
  | left + 1, retry, s => match call s with
    | (.ok reply, s) => ⟨.ok reply, s, []⟩
    | (.error failure, s) =>
      if failure.isRetryable then
        let rest := p.attempts call left (retry + 1) s
        { rest with delays := p.delay retry :: rest.delays }
      else ⟨.error failure, s, []⟩

/-- Attempts a call until it succeeds, fails for good, or runs out of retries. -/
def run {σ α : Type} (p : RetryPolicy) (call : σ → Except Failure α × σ) (s : σ) :
    Attempted σ α :=
  p.attempts call p.maxRetries 0 s

/-! ## Laws of delays -/

theorem factor_mono {a b : Nat} (h : a ≤ b) : factor a ≤ factor b := by
  unfold factor
  split <;> split
  · simp only [Nat.one_shiftLeft]
    exact Nat.pow_le_pow_right (by decide) h
  · next ha _ =>
    simp only [Nat.one_shiftLeft]
    exact Nat.le_pred_of_lt (Nat.pow_lt_pow_right (by decide) ha)
  · omega
  · exact Nat.le_refl _

/-- No delay is shorter than the one before. -/
theorem delay_mono (p : RetryPolicy) {a b : Nat} (h : a ≤ b) : p.delay a ≤ p.delay b := by
  have capped {x y z : Nat} (h : x ≤ y) : min x z ≤ min y z :=
    Nat.le_min_of_le_of_le (Nat.le_trans (Nat.min_le_left _ _) h) (Nat.min_le_right _ _)
  exact capped (capped (Nat.mul_le_mul_left p.initialDelay (factor_mono h)))

/-- No delay is longer than the cap. -/
theorem delay_le (p : RetryPolicy) (retry : Nat) : p.delay retry ≤ p.maxDelay :=
  Nat.min_le_right _ _

end RetryPolicy

namespace Attempted

variable {σ α : Type}

/-- The number of attempts. -/
def count (a : Attempted σ α) : Nat := a.delays.length + 1

/-- When the attempts were made, in milliseconds after the first. -/
def times (a : Attempted σ α) : List Nat := a.delays.scanl (fun time d => d.dueAt time) 0

end Attempted

end ChangeRelay.Client
