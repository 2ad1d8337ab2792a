import ChangeRelay.Change.Op
import ChangeRelay.Collections.Dict
import ChangeRelay.Collections.TextSet

/-!
# Changes of a source graph

A source reports changes of its graph's nodes and relationships as events, each with its place in
the source's stream. A batch is a run of events from one source.

Model of `Relationship`, `SourceChangeEvent` with its builders, and `EventBatch`.
-/

namespace ChangeRelay

/-- The two nodes that a relationship joins. -/
structure Relationship where
  startId : String
  endId : String
  startLabels : TextSet
  endLabels : TextSet
deriving DecidableEq, Repr, Inhabited

/-- One change of a node or of a relationship. -/
structure Event where
  /-- The place in the source's stream. -/
  sequence : UInt64
  /-- Nanoseconds since 1970. -/
  timestamp : Int64
  op : Op
  id : String
  labels : TextSet
  properties : Dict String
  /-- The nodes joined, unless the change is of a node. -/
  relationship : Option Relationship
deriving DecidableEq, Repr, Inhabited

/-- Events of one source, in order. -/
structure Batch where
  source : String
  metadata : Dict String
  events : List Event
deriving DecidableEq, Repr, Inhabited

namespace Event

/-- A change of a node, with nothing else known of it. -/
def node (sequence : UInt64) (op : Op) (id : String) : Event :=
  { sequence, timestamp := 0, op, id, labels := .empty, properties := .empty, relationship := none }

/-- A change of a relationship between two nodes. -/
def between (sequence : UInt64) (op : Op) (id startId endId : String) : Event :=
  { node sequence op id with relationship := some ⟨startId, endId, .empty, .empty⟩ }

def withTimestamp (e : Event) (t : Int64) : Event := { e with timestamp := t }

def withLabel (e : Event) (label : String) : Event := { e with labels := e.labels.insert label }

def withProperty (e : Event) (key value : String) : Event :=
  { e with properties := e.properties.insert key value }

def isRelationship (e : Event) : Bool := e.relationship.isSome

end Event

namespace Batch

/-- No events yet. -/
def empty (source : String) : Batch := ⟨source, .empty, []⟩

/-- Adds an event at the end. -/
def push (b : Batch) (e : Event) : Batch := { b with events := b.events ++ [e] }

end Batch

end ChangeRelay
