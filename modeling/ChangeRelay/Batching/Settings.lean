import ChangeRelay.Batching.Level
import ChangeRelay.Time

/-!
# Settings of a batcher

How large batches are to be, and how long to wait for them to fill, at each level of throughput.
Sizes are words of 64 bits, and doubling one drops the carry.

Model of `AdaptiveBatchConfig`, whose `parameters` is `Settings.target`.
-/

namespace ChangeRelay.Batching

structure Settings where
  /-- The target at a burst. -/
  maxSize : UInt64
  /-- The target when idle. -/
  minSize : UInt64
  maxWait : Duration
  minWait : Duration
  /-- How far back throughput is measured. -/
  window : Duration
  /-- Whether the targets follow throughput at all. -/
  adaptive : Bool
deriving DecidableEq, Repr

/-- What a batch is to come to. -/
structure Target where
  size : UInt64
  /-- How long to wait for a batch to fill, from its first item on. -/
  wait : Duration
deriving DecidableEq, Repr, Inhabited

/-- The longest block of memory that can be asked for, in bytes. -/
def maxBlock : Nat := 9223372036854775807

/-- Whether a batch of this size is no longer than a block of memory, if an item takes `width`
bytes. -/
def Target.fits (t : Target) (width : Nat) : Bool := t.size.toNat * width ≤ maxBlock

namespace Settings

def default : Settings :=
  { maxSize := 1000
    minSize := 10
    maxWait := .ofMillis 100
    minWait := .ofMillis 1
    window := .ofSeconds 5
    adaptive := true }

instance : Inhabited Settings := ⟨default⟩

/-- The smallest target: at least one item. -/
def least (s : Settings) : UInt64 := max s.minSize 1

/-- The largest target: no smaller than the smallest. -/
def most (s : Settings) : UInt64 := max s.maxSize s.least

/-- So many milliseconds, within the bounds for a wait. -/
def bounded (s : Settings) (millis : Nat) : Duration :=
  min (max (.ofMillis millis) s.minWait) (max s.maxWait s.minWait)

/-- The target at a level of throughput. -/
def target (s : Settings) : Level → Target
  | .idle => ⟨s.least, s.minWait⟩
  | .low => ⟨min (s.least * 2) s.most, s.bounded 1⟩
  | .medium => ⟨s.least + (s.most - s.least) / 4, s.bounded 10⟩
  | .high => ⟨s.least + (s.most - s.least) / 2, s.bounded 25⟩
  | .burst => ⟨s.most, s.bounded 50⟩

end Settings

end ChangeRelay.Batching
