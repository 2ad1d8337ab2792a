/-!
# Why a call has no reply

Model of `ClientError` and its `is_retryable`.
-/

namespace ChangeRelay.Client

/-- Why a call has no reply. -/
inductive Failure
  /-- Nothing can be reached under the address. -/
  | invalidEndpoint (uri : String)
  /-- No connection could be made. -/
  | transport
  /-- The server, or the way to it, answered with a status. -/
  | status (code : Nat) (message : String)
  /-- The client takes no more events. -/
  | closed
deriving DecidableEq, Repr, Inhabited

namespace Failure

/-- The status of a service that cannot be reached for now. -/
def unavailable : Nat := 14

/-- A status; a number that is no status code stands for the unknown status. -/
def ofStatus (code : Nat) (message : String) : Failure :=
  .status (if code ≤ 16 then code else 2) message

/-- Whether another attempt may go better. -/
def isRetryable : Failure → Bool
  | .invalidEndpoint _ => false
  | .transport => true
  | .status code _ => code = unavailable
  | .closed => false

/-- The wording of a failure that is not someone else's to word. -/
def message? : Failure → Option String
  | .status _ message => some message
  | .closed => some "adaptive dispatcher is closed"
  | _ => none

end Failure

end ChangeRelay.Client
