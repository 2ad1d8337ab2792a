import ChangeRelay.Result.Payload

/-!
# Reasons to refuse a message

What can be wrong with a message that was read without trouble, and how each reason is worded.

Model of `ValidationError`.
-/

namespace ChangeRelay

/-- The two ends of a relationship. -/
inductive Side
  | start
  | finish
deriving DecidableEq, Repr, Inhabited

def Side.name : Side → String
  | .start => "start"
  | .finish => "end"

/-- A reason to refuse a message. -/
inductive Invalid
  | emptyId
  | invalidOp (text : String)
  | incompleteRelationship (id : String) (side : Side)
  | emptyValue (field : String)
  | emptySource
  | sequenceRegression (source : String) (last got : UInt64)
  | sourceLimit (source : String) (limit : Nat)
  | emptyInvocationId
  | emptyQueryId
  | unknownQuery (query : String)
  | missingPayload
  | overlappingRecords (overlap : Overlap)
deriving DecidableEq, Repr, Inhabited

/-- The wording of a reason. -/
def Invalid.message : Invalid → String
  | .emptyId => "event id is empty"
  | .invalidOp text => "invalid op code " ++ Text.quote text ++ " (expected c, u or d)"
  | .incompleteRelationship id side =>
    "relationship " ++ Text.quote id ++ " has an empty " ++ side.name ++ " id"
  | .emptyValue field => "field " ++ Text.quote field ++ " holds a value with no variant set"
  | .emptySource => "batch source_id is empty"
  | .sequenceRegression source last got =>
    "sequence number " ++ decimal got.toNat ++ " is below last accepted " ++ decimal last.toNat ++
      " for source " ++ Text.quote source
  | .sourceLimit source limit =>
    "source stream limit of " ++ decimal limit ++ " reached; source " ++ Text.quote source ++
      " not accepted"
  | .emptyInvocationId => "invocation id is empty"
  | .emptyQueryId => "query id is empty"
  | .unknownQuery query => "unknown query id " ++ Text.quote query
  | .missingPayload => "invocation has no payload"
  | .overlappingRecords o =>
    "record " ++ o.id.display ++ " appears in both " ++ o.first.name ++ " and " ++ o.second.name

end ChangeRelay
