import ChangeRelay.Collections.Dict
import ChangeRelay.Result.Value

/-!
# Changes of a query's result

When a query's result changes, the records that came, changed and went are delivered together. A
record's identity is the value of one of its fields; a record without the field has none. The three
lists of one payload should not share an identity.

Model of `ResultRecord`, `ReactionPayload` with its `check_disjoint` (`overlap?`), and
`ReactionInvocation`.
-/

namespace ChangeRelay

/-- A row of a result: its fields and what they hold. -/
abbrev Record := Dict Value

/-- The three lists of a payload. -/
inductive RecordSet
  | added
  | updated
  | deleted
deriving DecidableEq, Repr, Inhabited

def RecordSet.name : RecordSet → String
  | .added => "added"
  | .updated => "updated"
  | .deleted => "deleted"

/-- What one step of a query did to its result. -/
structure Payload where
  /-- The number of the step. -/
  sequence : UInt64
  added : List Record
  updated : List Record
  deleted : List Record
deriving DecidableEq, Repr, Inhabited

/-- A delivery of a payload to whoever reacts to the query. -/
structure Invocation where
  /-- The same for every delivery of one payload. -/
  id : String
  /-- Nanoseconds since 1970. -/
  timestamp : Int64
  query : String
  metadata : Dict String
  payload : Payload
deriving DecidableEq, Repr, Inhabited

/-- An identity that stands in two of a payload's lists. -/
structure Overlap where
  id : Value
  first : RecordSet
  second : RecordSet
deriving DecidableEq, Repr, Inhabited

/-- The identities of records, in their order. -/
def identities (field : String) (records : List Record) : List Value :=
  records.filterMap fun r => r.get? field

namespace Payload

/-- One of the three lists. -/
def records (p : Payload) : RecordSet → List Record
  | .added => p.added
  | .updated => p.updated
  | .deleted => p.deleted

/-- The number of records in all three lists. -/
def recordCount (p : Payload) : Nat := p.added.length + p.updated.length + p.deleted.length

/-- The first identity, in the order of the lists, that an earlier list holds too. -/
def overlap? (p : Payload) (field : String) : Option Overlap :=
  let added := identities field p.added
  let updated := identities field p.updated
  let deleted := identities field p.deleted
  (updated.findSome? fun id => if id ∈ added then some ⟨id, .added, .updated⟩ else none).or
    (deleted.findSome? fun id =>
      if id ∈ added then some ⟨id, .added, .deleted⟩
      else if id ∈ updated then some ⟨id, .updated, .deleted⟩
      else none)

end Payload

end ChangeRelay
