import ChangeRelay.Dispatch.State
import ChangeRelay.Host.Prefs
import ChangeRelay.Pool
import ChangeRelay.Reaction.State

/-!
# The state of a host

A host has a dispatcher, a reaction handler, and one pool of workers for both. A request needs a
slot of the pool before it reaches either.

Model of `ServiceHost`, with what is on its way through `acquire` of the pool.
-/

namespace ChangeRelay

namespace Host

/-- How a host works. -/
structure Settings where
  dispatch : Dispatch.Settings
  reaction : Reaction.Settings
  /-- How many requests are worked on at once. -/
  workers : Nat
  /-- How long a request waits for a slot. -/
  wait : Duration
deriving DecidableEq, Repr

/-- What a request asks for. -/
inductive Work
  | dispatch (request : Dispatch.Request)
  | handle (invocation : Wire.Invocation)
  /-- Nothing but the slot, which is kept until it is given back. -/
  | keep
deriving DecidableEq, Repr

/-- What a request is told by the dispatcher or the reaction handler. -/
inductive Reply
  | dispatch (reply : DispatchReply)
  | invocation (reply : InvocationReply)
deriving DecidableEq, Repr

structure State where
  pool : Pool
  /-- The requests that wait for a slot. -/
  waiting : Table CallId Work
  dispatch : Dispatch.State
  reaction : Reaction.State
  /-- Whether the host was told to stop. -/
  shutdown : Bool
deriving Inhabited

/-- Before the first request. -/
def State.start (s : Settings) : State :=
  { pool := .ofWorkers s.workers s.wait
    waiting := .empty
    dispatch := .start
    reaction := .start
    shutdown := false }

/-- Whether the host was told to stop or has applied as many invocations as it was to apply. -/
def State.stopped (st : State) : Bool := st.shutdown || st.reaction.stopped

/-- Where a request stands. -/
inductive Place
  /-- It waits for a slot. -/
  | queued
  /-- Its wait for a slot is over. -/
  | called
  /-- It has reached the dispatcher and not looked for its stream. -/
  | arrived
  /-- Its stream was found. -/
  | found
  /-- It is in the stream's line. -/
  | inLine (first : Bool)
  /-- The pipeline has an event of it. -/
  | offering
  /-- The pipeline has its invocation. -/
  | applying
  /-- It waits for an earlier delivery. -/
  | awaiting
  /-- The earlier delivery has ended. -/
  | released
  /-- It has a slot and nothing else, or it is not in progress. -/
  | aside
deriving DecidableEq, Repr

/-- Where a request stands. -/
def State.place (st : State) (id : CallId) : Place :=
  if id ∈ st.pool.handed then .called
  else if id ∈ st.pool.line then (if st.pool.closed then .called else .queued)
  else match st.dispatch.calls.get? id with
    | some call => match call.phase with
      | .arrived => .arrived
      | .found => .found
      | .inLine => .inLine ((st.dispatch.line call.walk.source).head? = some id)
      | .offering _ => .offering
    | none => match st.reaction.deliveries.get? id with
      | some d => match d.phase with
        | .applying _ => .applying
        | .awaiting _ => .awaiting
        | .released _ => .released
      | none => .aside

end Host

/-- How a host with these preferences works. -/
def Prefs.host (p : Prefs) : Host.Settings :=
  ⟨p.dispatch, p.reaction, p.maxWorkers.toNat, p.timeout⟩

end ChangeRelay
