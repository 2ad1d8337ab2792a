import ChangeRelay.Number.Double

/-!
# Levels of throughput

How many items a second pass, in five levels.

Model of `ThroughputLevel` and its `from_rate`.
-/

namespace ChangeRelay.Batching

/-- A level of throughput. -/
inductive Level
  /-- Less than one item a second. -/
  | idle
  /-- Less than a hundred. -/
  | low
  /-- Less than a thousand. -/
  | medium
  /-- Less than ten thousand. -/
  | high
  | burst
deriving DecidableEq, Repr, Inhabited

namespace Level

/-- The levels in order. -/
def all : List Level := [.idle, .low, .medium, .high, .burst]

/-- The place of a level in the order. -/
def rank : Level → Nat
  | .idle => 0
  | .low => 1
  | .medium => 2
  | .high => 3
  | .burst => 4

instance : LE Level := ⟨fun a b => a.rank ≤ b.rank⟩

instance (a b : Level) : Decidable (a ≤ b) := inferInstanceAs (Decidable (a.rank ≤ b.rank))

/-- The level of a rate; what is below no bound is a burst. -/
def ofRate (rate : Double) : Level :=
  if rate.below (.ofNat 1) then .idle
  else if rate.below (.ofNat 100) then .low
  else if rate.below (.ofNat 1000) then .medium
  else if rate.below (.ofNat 10000) then .high
  else .burst

/-- The highest of some levels. -/
def highest? (levels : List Level) : Option Level :=
  levels.foldl
    (fun best? l => some (match best? with
      | none => l
      | some best => if best ≤ l then l else best)) none

end Level

end ChangeRelay.Batching
