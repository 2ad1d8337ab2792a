import ChangeRelay.Batching.Monitor
import ChangeRelay.Batching.Settings

/-!
# Batches from a channel

Items come through a channel and are put together to batches. A batch begins with its first item;
then it takes what the channel holds, one item at a time, and ends when it has its target size, or
when the channel is empty and either the batch's wait is over or the channel is closed. The target
is set anew for each batch, by the throughput at its beginning.

Memory for a whole batch is asked for when it begins, right after its first item was taken. If that
is more than can be asked for at all, then the batcher breaks down: the item is lost, and nothing
comes out any more.

Model of `AdaptiveBatcher` with its channel. Its `batch_size` and `wait` are the target. A
`next_batch` is a row of looks, and `poll` takes those of one time; where `with_capacity` panics, the
stage is `broken`.
-/

namespace ChangeRelay.Batching

variable {α : Type}

/-- A batch that has begun. -/
structure Collecting (α : Type) where
  first : α
  /-- What it has taken after its first item. -/
  rest : List α
  /-- When its wait is over. -/
  deadline : Nat
deriving DecidableEq, Repr

/-- The items that a batch has by now. -/
def Collecting.items (c : Collecting α) : List α := c.first :: c.rest

/-- Takes one more item. -/
def Collecting.take (c : Collecting α) (item : α) : Collecting α :=
  { c with rest := c.rest ++ [item] }

/-- What a batcher is at. -/
inductive Stage (α : Type)
  | idle
  | filling (batch : Collecting α)
  /-- There was no memory for the batch that this item was to begin. -/
  | broken (lost : α)
deriving DecidableEq, Repr

/-- The batch that has begun. -/
def Stage.batch? : Stage α → Option (Collecting α)
  | .filling c => some c
  | _ => none

/-- A batcher and the channel that it reads. -/
structure Batcher (α : Type) where
  settings : Settings
  /-- How many bytes of memory an item takes in a batch. -/
  width : Nat
  /-- The items in the channel, the oldest first. -/
  queue : List α
  /-- Whether no more items will come. -/
  closed : Bool
  monitor : Monitor
  target : Target
  stage : Stage α
deriving Repr

/-- What comes of a look at the channel. -/
inductive Progress (α : Type)
  | batch (items : List α)
  /-- No more batches will come. -/
  | ended
  /-- There is no memory for the next one. -/
  | failed
  /-- Something has to happen first. -/
  | pending
deriving DecidableEq, Repr

namespace Batcher

/-- Nothing sent yet; an item takes `width` bytes. -/
def ofSettings (s : Settings) (width : Nat) : Batcher α :=
  { settings := s
    width
    queue := []
    closed := false
    monitor := .ofWindow s.window
    target := s.target .idle
    stage := .idle }

/-- Puts items into the channel. -/
def send (b : Batcher α) (items : List α) : Batcher α := { b with queue := b.queue ++ items }

/-- Says that no more items will come. -/
def close (b : Batcher α) : Batcher α := { b with closed := true }

/-- Sets the target by the throughput. -/
def adapt (b : Batcher α) (now : Nat) : Batcher α :=
  if b.settings.adaptive then { b with target := b.settings.target (b.monitor.level now) } else b

/-- Begins a batch with its first item, if there can be memory for all of the batch. -/
def start (b : Batcher α) (now : Nat) (first : α) : Batcher α × Option (Progress α) :=
  let b := b.adapt now
  if b.target.fits b.width then
    ({ b with stage := .filling ⟨first, [], now + b.target.wait⟩ }, none)
  else ({ b with stage := .broken first }, some .failed)

/-- Ends a batch of this size. -/
def finish (b : Batcher α) (now : Nat) (size : Nat) : Batcher α :=
  { b with monitor := b.monitor.record now (.ofNat size), stage := .idle }

/-- Whether a batch ends here: it has its target size, or the channel holds nothing for it and
either its wait is over or nothing more will come. -/
def isDue (b : Batcher α) (now : Nat) (c : Collecting α) : Bool :=
  b.target.size.toNat ≤ c.items.length || b.queue.isEmpty && (b.closed || c.deadline ≤ now)

/-- A step of a look at the channel: it takes an item and goes on, or comes to something. -/
def look (b : Batcher α) (now : Nat) : Batcher α × Option (Progress α) :=
  match b.stage, b.queue with
  | .idle, [] => (b, some (if b.closed then .ended else .pending))
  | .idle, first :: queue => { b with queue }.start now first
  | .filling c, queue =>
    if b.isDue now c then (b.finish now c.items.length, some (.batch c.items))
    else match queue with
      | [] => (b, some .pending)
      | item :: queue => ({ b with queue, stage := .filling (c.take item) }, none)
  | .broken _, _ => (b, some .failed)

/-- A look at the channel, with so many steps at most. -/
def pollFor (now : Nat) : Nat → Batcher α → Batcher α × Progress α
  | 0, b => (b, .pending)
  | left + 1, b => match b.look now with
    | (b, none) => pollFor now left b
    | (b, some progress) => (b, progress)

/-- Looks at the channel for the next batch. -/
def poll (b : Batcher α) (now : Nat) : Batcher α × Progress α := b.pollFor now (b.queue.length + 1)

/-- Gives up on the batch that has begun; its items are lost. -/
def abandon (b : Batcher α) : Batcher α := { b with stage := .idle }

end Batcher

end ChangeRelay.Batching
