import ChangeRelay.Time

/-!
# The pipeline behind a host

Checked events and invocations are handed to a pipeline, which takes each or gives a reason why it
does not.

Model of `EventSink` and `ReactionSink`, whose `forward` and `apply` fail with a `SinkError`.
-/

namespace ChangeRelay.Pipeline

/-- A reason why the pipeline did not take what it was handed. -/
inductive Fault
  /-- Nobody is at the other end. -/
  | closed
  /-- It took longer than it may. -/
  | timeout (after : Duration)
  /-- It was refused. -/
  | rejected (reason : String)
  | other (reason : String)
deriving DecidableEq, Repr, Inhabited

/-- The wording of a reason. -/
def Fault.message : Fault → String
  | .closed => "pipeline closed"
  | .timeout d => "pipeline timed out after " ++ d.text
  | .rejected reason => "pipeline rejected: " ++ reason
  | .other reason => reason

/-- What the pipeline says to what it was handed. -/
inductive Verdict
  | taken
  | failed (fault : Fault)
deriving DecidableEq, Repr, Inhabited

end ChangeRelay.Pipeline
