import ChangeRelay.Client.Retry
import ChangeRelay.Client.Uri
import ChangeRelay.Collections.Dict

/-!
# Settings of clients

Model of `ConnectionSettings`, with `uri` and the faults that `endpoint` finds, and of the
`DispatcherSettings` and `ReactionClientSettings` around it.
-/

namespace ChangeRelay.Client

/-- Where and how a service is reached. -/
structure Connection where
  host : String
  portNumber : UInt16
  /-- How long a call may take. -/
  timeout : Duration
  /-- How long connecting may take. -/
  connectTimeout : Duration
  retry : RetryPolicy
deriving DecidableEq, Repr

namespace Connection

def ofHost (host : String) (portNumber : UInt16) : Connection :=
  ⟨host, portNumber, .ofSeconds 30, .ofSeconds 5, .default⟩

def uri (c : Connection) : String := Uri.ofHost c.host c.portNumber

/-- Why the service cannot be reached, if that can be said without trying. -/
def fault? (c : Connection) : Option Failure :=
  if Uri.isUri c.host c.portNumber then none else some (.invalidEndpoint c.uri)

end Connection

/-- How events are sent. -/
structure Settings where
  connection : Connection
  /-- Whether events are sent as one batch, and not one by one. -/
  batched : Bool
  /-- The source that batches come from. -/
  source : String
  /-- The metadata of batches. -/
  metadata : Dict String
deriving DecidableEq, Repr

/-- The settings of a client of a service, with the source that a client has if it is given none. -/
def Settings.ofConnection (c : Connection) : Settings := ⟨c, true, "riffle", .empty⟩

end ChangeRelay.Client
