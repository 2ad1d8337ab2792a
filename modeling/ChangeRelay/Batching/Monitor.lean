import ChangeRelay.Batching.Level
import ChangeRelay.Time

/-!
# Measuring throughput

Throughput is the number of items in the batches of a sliding window of time, over the window's
length. Batches that have left the window are forgotten when a new one is recorded.

Times are in nanoseconds from any one origin.

Model of `ThroughputMonitor`: `record` is `record_batch` with the `expire` in it, and `rate` and
`level` are `messages_per_second` and `level`.
-/

namespace ChangeRelay.Batching

/-- A batch that was delivered. -/
structure Delivery where
  time : Nat
  size : UInt64
deriving DecidableEq, Repr, Inhabited

structure Monitor where
  /-- The length of the window. -/
  window : Duration
  /-- The batches that are remembered, the oldest first. -/
  deliveries : List Delivery
deriving DecidableEq, Repr, Inhabited

namespace Monitor

/-- Nothing delivered yet; a window has at least a millisecond. -/
def ofWindow (window : Duration) : Monitor := ⟨max window (.ofMillis 1), []⟩

/-- Whether a batch lies in the window at a time. -/
def isFresh (m : Monitor) (now : Nat) (d : Delivery) : Bool := now - d.time < m.window

/-- Remembers a batch delivered now, and forgets the oldest ones that have left the window. -/
def record (m : Monitor) (now : Nat) (size : UInt64) : Monitor :=
  let all := m.deliveries ++ [Delivery.mk now size]
  { m with deliveries := all.dropWhile fun d => !m.isFresh now d }

/-- The number of items in batches, a word of 64 bits. -/
def items : List Delivery → UInt64
  | [] => 0
  | d :: ds => d.size + items ds

/-- The number of items in the window. -/
def total (m : Monitor) (now : Nat) : UInt64 := items (m.deliveries.filter (m.isFresh now))

/-- A duration in seconds. -/
def seconds (d : Duration) : Double :=
  .add (.ofNat (d / 1000000000)) (.div (.ofNat (d % 1000000000)) (.ofNat 1000000000))

/-- Items a second. -/
def rate (m : Monitor) (now : Nat) : Double := .div (.ofNat (m.total now).toNat) (seconds m.window)

def level (m : Monitor) (now : Nat) : Level := .ofRate (m.rate now)

end Monitor

end ChangeRelay.Batching
