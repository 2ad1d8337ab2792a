import ChangeRelay.Batching.Batcher
import ChangeRelay.Client.Dispatch

/-!
# Sending events in batches that follow throughput

Events go through a channel to a task of their own. It puts them together to batches with a batcher
and sends the batches one after the other. A batch that fails after its retries is dropped, and the
report says so. If the batcher breaks down, so does the task: there is no report, and what was not
sent by then is lost.

Model of `AdaptiveSourceDispatcher` and `AdaptiveReport`. `start` is `spawn`, `send?` and `close?`
are its methods of these names, `work?` and `result?` are the task `run` and what comes of waiting
for it.
-/

namespace ChangeRelay.Client

/-- What became of the events, in counters of 64 bits that drop the carry. -/
structure Report where
  /-- Batches that got a reply. -/
  sent : UInt64
  /-- Batches that got none. -/
  failed : UInt64
  /-- Events that the server accepted. -/
  processed : UInt64
  /-- Events of batches with a reply that the server did not accept. -/
  rejected : UInt64
deriving DecidableEq, Repr, Inhabited

namespace Report

def empty : Report := ⟨0, 0, 0, 0⟩

/-- Counts in what a batch of `size` events came to. -/
def add (r : Report) (size : Nat) : Except Failure DispatchReply → Report
  | .error _ => { r with failed := r.failed + 1 }
  | .ok reply =>
    { r with
      sent := r.sent + 1
      processed := r.processed + reply.processed
      rejected := r.rejected + if reply.success then 0 else .ofNat (size - reply.processed.toNat) }

end Report

/-- What the task is at. -/
inductive Publisher.Phase
  /-- It waits for its next batch. -/
  | gathering
  /-- It has a batch to send. -/
  | sending (events : List Event)
  /-- Nothing more will come, and the report is final. -/
  | done
  /-- The batcher broke down. -/
  | broken
deriving DecidableEq, Repr

/-- A task that sends events in batches, and the channel that leads to it. -/
structure Publisher (σ : Type) where
  batcher : Batching.Batcher Event
  /-- How many events the channel holds. -/
  capacity : Nat
  phase : Publisher.Phase
  report : Report
  /-- The server, as it is by now. -/
  server : σ

/-- What happens to a publisher. -/
inductive Publisher.Label
  /-- An event goes into the channel. -/
  | send (e : Event)
  /-- No more events will come. -/
  | close
  /-- The task takes a step. -/
  | work (now : Nat)
deriving DecidableEq, Repr

namespace Publisher

variable {σ : Type}

/-- A task that has nothing to do yet; its channel holds at least one event, and an event takes
`width` bytes in a batch. -/
def start (batching : Batching.Settings) (width capacity : Nat) (s : σ) : Publisher σ :=
  ⟨.ofSettings batching width, max capacity 1, .gathering, .empty, s⟩

/-- What comes of sending an event: it goes into the channel, or waits until there is room, or
fails if nobody reads the channel any more. A closed channel is sent nothing. -/
def send? (p : Publisher σ) (e : Event) : Option (Except Failure (Publisher σ)) :=
  if p.batcher.closed then none
  else if p.phase = .broken then some (.error .closed)
  else if p.capacity ≤ p.batcher.queue.length then none
  else some (.ok { p with batcher := p.batcher.send [e] })

/-- Says that no more events will come. -/
def close? (p : Publisher σ) : Option (Publisher σ) :=
  if p.batcher.closed then none else some { p with batcher := p.batcher.close }

/-- Sends a batch, as often as it has to be attempted. -/
def deliver (c : Settings) (server : Server σ) (p : Publisher σ) (events : List Event) :
    Publisher σ :=
  let (outcome, s) := sendBatch c server ⟨c.source, c.metadata, events⟩ p.server
  { p with phase := .gathering, report := p.report.add events.length outcome, server := s }

/-- A step of the task, unless it has to wait for something. -/
def work? (c : Settings) (server : Server σ) (p : Publisher σ) (now : Nat) :
    Option (Publisher σ) :=
  match p.phase with
  | .gathering => match p.batcher.look now with
    | (batcher, none) => some { p with batcher }
    | (batcher, some (.batch events)) => some { p with batcher, phase := .sending events }
    | (batcher, some .ended) => some { p with batcher, phase := .done }
    | (batcher, some .failed) => some { p with batcher, phase := .broken }
    | (_, some .pending) => none
  | .sending events => some (p.deliver c server events)
  | .done | .broken => none

/-- What whoever closes the channel is told, once the task has come to an end. -/
def result? (p : Publisher σ) : Option (Except Failure Report) :=
  match p.phase with
  | .done => some (.ok p.report)
  | .broken => some (.error .closed)
  | .gathering | .sending _ => none

def step (c : Settings) (server : Server σ) (p : Publisher σ) : Label → Option (Publisher σ)
  | .send e => (p.send? e).bind Except.toOption
  | .close => p.close?
  | .work now => p.work? c server now

/-- How many steps the task can take at most, if no more events come: one to take an event, two to
make a batch of it and to send it, and one to stop. -/
def stepsLeft (p : Publisher σ) : Nat :=
  3 * p.batcher.queue.length + (if p.batcher.stage.batch?.isSome then 2 else 0) +
    match p.phase with
    | .gathering => 1
    | .sending _ => 2
    | .done | .broken => 0

/-- Lets the task take its steps at these times, until it has to wait for something. -/
def workAt (c : Settings) (server : Server σ) : List Nat → Publisher σ → Publisher σ
  | [], p => p
  | now :: times, p => match p.work? c server now with
    | some p => workAt c server times p
    | none => p

end Publisher

variable {σ : Type}

/-- Sends events that are all there from the beginning, in batches. -/
def sendAdaptively (c : Settings) (batching : Batching.Settings) (width : Nat) (server : Server σ)
    (events : List Event) (s : σ) : Option (Except Failure Report) × σ :=
  let p : Publisher σ := .start batching width events.length s
  let p := { p with batcher := (p.batcher.send events).close }
  let p := p.workAt c server (.replicate p.stepsLeft 0)
  (p.result?, p.server)

end ChangeRelay.Client
