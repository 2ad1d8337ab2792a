import ChangeRelay.Collections.TextSet
import ChangeRelay.Time

/-!
# Settings of the reaction handler

Model of `ReactionConfig`.
-/

namespace ChangeRelay.Reaction

/-- How invocations are handled. -/
structure Settings where
  /-- The queries that are served; without any, every query is. -/
  queries : TextSet
  /-- The field that holds a record's identity. -/
  recordIdField : String
  /-- How many applied invocations are remembered; at least one is. -/
  capacity : Nat
  /-- The metadata key that ties an invocation to its cause. -/
  correlationKey : Option String
  /-- The number of applied invocations after which to stop. -/
  stopAfter : Option UInt64
  /-- How long the pipeline may take over one invocation. -/
  timeout : Duration
deriving DecidableEq, Repr

end ChangeRelay.Reaction
