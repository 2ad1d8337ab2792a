import ChangeRelay.Time

/-!
# Settings of the dispatcher

Model of `DispatcherConfig` and `BatchFailurePolicy`.
-/

namespace ChangeRelay

/-- What happens to the rest of a batch when an event of it is rejected. -/
inductive FailurePolicy
  /-- The rest is attempted. -/
  | proceed
  /-- The rest is left alone. -/
  | abort
deriving DecidableEq, Repr, Inhabited

namespace Dispatch

/-- How events are dispatched. -/
structure Settings where
  /-- The stream of events that come without a source. -/
  defaultSource : String
  failurePolicy : FailurePolicy
  /-- How long the pipeline may take over one event. -/
  timeout : Duration
  /-- How many streams may ever be opened. -/
  maxStreams : Nat
deriving DecidableEq, Repr

end Dispatch

end ChangeRelay
