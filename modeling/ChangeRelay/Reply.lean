/-!
# Replies

What a caller is told about the events or the invocation it sent.

Model of `DispatchResponse` and `InvocationResponse`.
-/

namespace ChangeRelay

/-- The reply to events. -/
structure DispatchReply where
  /-- Whether every event was accepted. -/
  success : Bool
  message : String
  /-- How many events were accepted. -/
  processed : UInt64
deriving DecidableEq, Repr, Inhabited

/-- The reply to an invocation. -/
structure InvocationReply where
  /-- Whether the invocation was applied, now or earlier. -/
  success : Bool
  message : String
  /-- The id of the invocation replied to. -/
  id : String
deriving DecidableEq, Repr, Inhabited

end ChangeRelay
