import ChangeRelay.CallId
import ChangeRelay.Collections.Table
import ChangeRelay.Dispatch.Walk

/-!
# The state of a dispatcher

Every source has a stream: the number of its last accepted event, and the line of calls that work
on it. The first call in line is the one at work; the others wait, in the order in which they came.

Model of `DispatcherCore` (`State`), `SourceStream` (`Stream`, whose line is the queue of its lock)
and `DispatchMetrics` (`Counts`).
-/

namespace ChangeRelay.Dispatch

/-- Events as a caller hands them over. -/
inductive Request
  /-- One event, on the default stream. -/
  | single (event : Wire.Event)
  /-- Several events, on the default stream. -/
  | group (events : List Wire.Event)
  /-- Several events, on the stream of their source. -/
  | batch (batch : Wire.Batch)
deriving DecidableEq, Repr

namespace Request

def events : Request → List Wire.Event
  | .single e => [e]
  | .group es => es
  | .batch b => b.events

/-- The stream that a request is for. -/
def source (s : Settings) : Request → String
  | .single _ => s.defaultSource
  | .group _ => s.defaultSource
  | .batch b => b.source

end Request

/-- The state of one source. -/
structure Stream where
  /-- The sequence number of the last accepted event. -/
  last? : Option UInt64
  /-- The calls in line, the first of which is at work. -/
  line : List CallId
deriving DecidableEq, Repr

/-- No event accepted and nobody in line. -/
def Stream.new : Stream := ⟨none, []⟩

instance : Inhabited Stream := ⟨.new⟩

/-- Where a call stands. -/
inductive Phase
  /-- It has not looked for its stream. -/
  | arrived
  /-- Its stream is there. -/
  | found
  | inLine
  /-- It is at work and the pipeline has this event. -/
  | offering (event : Event)
deriving DecidableEq, Repr, Inhabited

/-- A call in progress. -/
structure Call where
  walk : Walk
  phase : Phase
deriving DecidableEq, Repr, Inhabited

/-- Running totals. They are kept by counters of 64 bits, see `Counts.shown`. -/
structure Counts where
  /-- Batches and groups, empty ones too. -/
  batches : Nat
  /-- Events that came in. -/
  received : Nat
  processed : Nat
  rejected : Nat
deriving DecidableEq, Repr, Inhabited

def Counts.zero : Counts := ⟨0, 0, 0, 0⟩

/-- The totals as the counters show them, which drop the carry. -/
def Counts.shown (c : Counts) : Counts :=
  ⟨c.batches % UInt64.size, c.received % UInt64.size, c.processed % UInt64.size,
    c.rejected % UInt64.size⟩

structure State where
  /-- The streams, in the order in which they were opened. -/
  streams : Table String Stream
  calls : Table CallId Call
  counts : Counts
deriving Inhabited

/-- Before the first call. -/
def State.start : State := ⟨.empty, .empty, .zero⟩

namespace State

/-- The number of the last accepted event of a source. -/
def last? (st : State) (source : String) : Option UInt64 :=
  (st.streams.get? source).bind Stream.last?

/-- The calls in line for a source. -/
def line (st : State) (source : String) : List CallId :=
  match st.streams.get? source with
  | some stream => stream.line
  | none => []

end State

end ChangeRelay.Dispatch
