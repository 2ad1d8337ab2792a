import ChangeRelay.Client.Settings
import ChangeRelay.Reply
import ChangeRelay.Result.Payload
import ChangeRelay.Text.Token
import ChangeRelay.Wire.Checked

/-!
# Sending events and invocations

A client sends events in a batch or one by one, and invocations one by one. What becomes of each
attempt is up to the server, which is given by what it does with each message.

Model of `SourceDispatcherClient` (`dispatch_single`, `dispatch_batch`, and `send` for `dispatch`)
and of `handle_invocation` of `ReactionHandlerClient`.
-/

namespace ChangeRelay.Client

/-- What a server makes of the messages that reach it. -/
structure Server (σ : Type) where
  /-- A connection is made before there is anything to send. -/
  connect : σ → Except Failure Unit × σ
  single : Wire.Event → σ → Except Failure DispatchReply × σ
  batch : Wire.Batch → σ → Except Failure DispatchReply × σ
  /-- Headers come beside an invocation. -/
  invocation : Wire.Invocation → List (String × String) → σ → Except Failure InvocationReply × σ

variable {σ : Type}

/-- A server that cannot be reached: no connection is made, and every attempt fails the same
way. -/
def Server.unreachable (failure : Failure) : Server σ :=
  ⟨fun s => (.error .transport, s), fun _ s => (.error failure, s),
    fun _ s => (.error failure, s), fun _ _ s => (.error failure, s)⟩

/-- Gets a client ready: it needs an address that something can be reached under and, if it is to be
connected from the beginning, a connection. -/
def start (c : Connection) (eager : Bool) (server : Server σ) (s : σ) : Except Failure Unit × σ :=
  match c.fault? with
  | some failure => (.error failure, s)
  | none => if eager then server.connect s else (.ok (), s)

/-- Sends one event. -/
def sendSingle (c : Settings) (server : Server σ) (e : Event) (s : σ) :
    Except Failure DispatchReply × σ :=
  let a := c.connection.retry.run (server.single e.wire) s
  (a.outcome, a.state)

/-- Sends a batch. -/
def sendBatch (c : Settings) (server : Server σ) (b : Batch) (s : σ) :
    Except Failure DispatchReply × σ :=
  let a := c.connection.retry.run (server.batch b.wire) s
  (a.outcome, a.state)

/-- What the replies to events that were sent one by one come to. -/
structure Tally where
  processed : UInt64
  /-- The message of the first reply that said that something was refused. -/
  refusal? : Option String
deriving DecidableEq, Repr, Inhabited

/-- Counts a reply in. -/
def Tally.add (t : Tally) (r : DispatchReply) : Tally :=
  ⟨t.processed + r.processed, t.refusal?.or (if r.success then none else some r.message)⟩

/-- The one reply for all events. -/
def Tally.reply (t : Tally) (total : Nat) : DispatchReply :=
  match t.refusal? with
  | none => ⟨true, "dispatched " ++ decimal total ++ " events singly", t.processed⟩
  | some message =>
    ⟨false, decimal t.processed.toNat ++ " of " ++ decimal total ++
      " events accepted (first failure: " ++ message ++ ")", t.processed⟩

/-- Sends events one by one; the first failure ends it. -/
def sendSingly (c : Settings) (server : Server σ) :
    List Event → Tally → σ → Except Failure Tally × σ
  | [], t, s => (.ok t, s)
  | e :: es, t, s => match sendSingle c server e s with
    | (.ok reply, s) => sendSingly c server es (t.add reply) s
    | (.error failure, s) => (.error failure, s)

/-- Sends events the way that the settings say. -/
def send (c : Settings) (server : Server σ) (events : List Event) (s : σ) :
    Except Failure DispatchReply × σ :=
  if events.isEmpty then (.ok ⟨true, "no events", 0⟩, s)
  else if c.batched then sendBatch c server ⟨c.source, c.metadata, events⟩ s
  else
    let (outcome, s) := sendSingly c server events ⟨0, none⟩ s
    (outcome.map fun t => t.reply events.length, s)

/-! ## Invocations -/

/-- The headers of an invocation: its step's number under the key that ties it to its cause, if the
key can name a header. -/
def headers (correlationKey : Option String) (i : Invocation) : List (String × String) :=
  match correlationKey with
  | none => []
  | some key =>
    let name := key.toLower
    if Text.isTextHeaderName name then [(name, decimal i.payload.sequence.toNat)] else []

/-- Sends an invocation. -/
def sendInvocation (c : Connection) (correlationKey : Option String) (server : Server σ)
    (i : Invocation) (s : σ) : Except Failure InvocationReply × σ :=
  let a := c.retry.run (server.invocation i.wire (headers correlationKey i)) s
  (a.outcome, a.state)

end ChangeRelay.Client
