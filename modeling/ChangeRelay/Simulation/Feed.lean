import ChangeRelay.Batching.Batcher

/-!
# A batcher on a clock that jumps

A batcher whose items are sent at chosen times. Nothing takes time but waiting, and the clock, in
whole milliseconds, jumps to the next thing that happens.
-/

namespace ChangeRelay.Simulation

open Batching

variable {α : Type}

structure Feed (α : Type) where
  batcher : Batcher α
  /-- The time in milliseconds. -/
  now : Nat
  /-- Whether items can still be sent at once. -/
  isOpen : Bool
  /-- The items to be sent later, and when. -/
  later : List (Nat × List α)
deriving Repr

namespace Feed

def ofSettings (s : Settings) (width : Nat) : Feed α := ⟨.ofSettings s width, 0, true, []⟩

/-- The time in nanoseconds. -/
def nanos (f : Feed α) : Nat := Duration.ofMillis f.now

/-- Sends what is due, and closes the channel when nobody is left to send anything. -/
def settle (f : Feed α) : Feed α :=
  let due := f.later.filter fun p => p.1 ≤ f.now
  let later := f.later.filter fun p => !(p.1 ≤ f.now)
  let sorted := due.mergeSort fun p q => p.1 ≤ q.1
  let batcher := sorted.foldl (fun b p => b.send p.2) f.batcher
  { f with
    later
    batcher := if !f.isOpen && later.isEmpty then batcher.close else batcher }

/-- Sends items after so many milliseconds. -/
def send (f : Feed α) (millis : Nat) (items : List α) : Feed α :=
  { f with later := f.later ++ [(f.now + millis, items)] }.settle

/-- Sends items at once. -/
def sendNow (f : Feed α) (items : List α) : Feed α := { f with batcher := f.batcher.send items }

/-- Says that no more items will be sent at once. -/
def close (f : Feed α) : Feed α := { f with isOpen := false }.settle

/-- Lets so many milliseconds go by. -/
def advance (f : Feed α) (millis : Nat) : Feed α := { f with now := f.now + millis }.settle

/-- When something happens next. -/
def next? (f : Feed α) : Option Nat :=
  let deadlines : List Nat :=
    f.batcher.stage.batch?.toList.map fun c => Duration.toMillis c.deadline
  (f.later.map Prod.fst ++ deadlines).min?

/-- Waits for the next batch until a time, in so many jumps at most. -/
def waitUntil (limit : Nat) : Nat → Feed α → Feed α × Progress α
  | 0, f => (f, .pending)
  | fuel + 1, f =>
    let (batcher, progress) := f.batcher.poll f.nanos
    let f := { f with batcher }
    match progress with
    | .pending =>
      if limit ≤ f.now then ({ f with batcher := batcher.abandon }, .pending)
      else
        let time := min limit (f.next?.getD limit)
        waitUntil limit fuel { f with now := max f.now time }.settle
    | progress => (f, progress)

/-- Waits for the next batch, for an hour at most. -/
def nextBatch (f : Feed α) : Feed α × Progress α :=
  f.waitUntil (f.now + 60 * 60 * 1000) (f.later.length + 3)

end Feed

end ChangeRelay.Simulation
