import ChangeRelay.Collections.Dict
import ChangeRelay.Number.Double

/-!
# Messages as they travel

The shapes in which changes and results travel, before anything about them is checked: a kind of
change is any text, labels are a list that may repeat, a value may be unset, and what should be
there may be missing.

Model of the wire types: `Relationship`, `SourceChangeEvent`, `EventBatch`, `Value`, `ResultRecord`,
`ReactionPayload` and `ReactionInvocation`.
-/

namespace ChangeRelay.Wire

structure Relationship where
  startId : String
  endId : String
  startLabels : List String
  endLabels : List String
deriving DecidableEq, Repr

structure Event where
  sequence : UInt64
  timestamp : Int64
  op : String
  id : String
  labels : List String
  properties : Dict String
  relationship : Option Relationship
deriving DecidableEq, Repr

structure Batch where
  source : String
  events : List Event
  metadata : Dict String
deriving DecidableEq, Repr

/-- What a value may hold; a null carries a number that means nothing. -/
inductive Scalar
  | string (s : String)
  | double (d : Double)
  | integer (i : Int64)
  | boolean (b : Bool)
  | null (code : Int32)
deriving DecidableEq, Repr

/-- A value, which may be unset. -/
abbrev Value := Option Scalar

abbrev Record := Dict Value

structure Payload where
  sequence : UInt64
  added : List Record
  updated : List Record
  deleted : List Record
deriving DecidableEq, Repr

structure Invocation where
  id : String
  timestamp : Int64
  query : String
  metadata : Dict String
  payload : Option Payload
deriving DecidableEq, Repr

/-! Every message has an empty form, which is also what stands where nothing was sent. -/

def Relationship.empty : Relationship := ⟨"", "", [], []⟩

def Event.empty : Event := ⟨0, 0, "", "", [], .empty, none⟩

def Batch.empty : Batch := ⟨"", [], .empty⟩

def Payload.empty : Payload := ⟨0, [], [], []⟩

def Invocation.empty : Invocation := ⟨"", 0, "", .empty, none⟩

instance : Inhabited Relationship := ⟨.empty⟩

instance : Inhabited Event := ⟨.empty⟩

instance : Inhabited Batch := ⟨.empty⟩

instance : Inhabited Payload := ⟨.empty⟩

instance : Inhabited Invocation := ⟨.empty⟩

end ChangeRelay.Wire
