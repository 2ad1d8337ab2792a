import ChangeRelay.Change.Json
import ChangeRelay.Json.Reader
import ChangeRelay.Wire.Message

/-!
# Unchecked changes in JSON

The JSON form of changes as they travel. Whatever is left out takes its empty form. The body of a
request is one event or an array of events; an array that reads as the values of a single event,
and not as events, is that event.

This is what `Serialize` and `Deserialize` of the wire types and of `EventsBody` come to.
-/

namespace ChangeRelay.Wire

/-- Texts as an array. -/
def textsJson (ss : List String) : Json := .array (ss.map Json.text)

namespace Relationship

def json (r : Relationship) : Json :=
  .record [("start_id", .text r.startId), ("end_id", .text r.endId),
    ("start_labels", textsJson r.startLabels), ("end_labels", textsJson r.endLabels)]

def ofJson? (j : Json) : Option Relationship := do
  match ← j.values? ChangeRelay.Relationship.names with
  | [startId, endId, startLabels, endLabels] =>
    return {
      startId := ← Json.orElse "" Json.text? startId
      endId := ← Json.orElse "" Json.text? endId
      startLabels := ← Json.orElse [] (Json.list? Json.text?) startLabels
      endLabels := ← Json.orElse [] (Json.list? Json.text?) endLabels }
  | _ => none

end Relationship

namespace Event

/-- A change of a node has `null` for its relationship. -/
def json (e : Event) : Json :=
  .record [("sequence_number", .int e.sequence.toNat), ("timestamp", .int e.timestamp.toInt),
    ("op", .text e.op), ("id", .text e.id), ("labels", textsJson e.labels),
    ("properties", e.properties.json),
    ("relationship", (e.relationship.map Relationship.json).getD .null)]

def ofJson? (j : Json) : Option Event := do
  match ← j.values? ChangeRelay.Event.names with
  | [sequence, timestamp, op, id, labels, properties, relationship] =>
    return {
      sequence := ← Json.orElse 0 Json.nat64? sequence
      timestamp := ← Json.orElse 0 Json.int64? timestamp
      op := ← Json.orElse "" Json.text? op
      id := ← Json.orElse "" Json.text? id
      labels := ← Json.orElse [] (Json.list? Json.text?) labels
      properties := ← Json.orElse .empty Dict.ofJson? properties
      relationship := ← Json.orElse none (Json.nullable? Relationship.ofJson?) relationship }
  | _ => none

end Event

namespace Batch

def names : List String := ["source_id", "events", "metadata"]

def json (b : Batch) : Json :=
  .record [("source_id", .text b.source), ("events", .array (b.events.map Event.json)),
    ("metadata", b.metadata.json)]

def ofJson? (j : Json) : Option Batch := do
  match ← j.values? names with
  | [source, events, metadata] =>
    return {
      source := ← Json.orElse "" Json.text? source
      events := ← Json.orElse [] (Json.list? Event.ofJson?) events
      metadata := ← Json.orElse .empty Dict.ofJson? metadata }
  | _ => none

end Batch

/-! ## Bodies of requests -/

/-- What the body of a request asks to dispatch. -/
inductive Body
  | many (events : List Event)
  | one (event : Event)
deriving DecidableEq, Repr

/-- Why a body is refused. -/
inductive BodyFault
  /-- The text is no JSON, or goes beyond what is accepted of one. -/
  | malformed
  /-- The text is JSON, but neither an event nor events. -/
  | shape
deriving DecidableEq, Repr

namespace Body

/-- Arrays and objects stand at most this deep in each other, and every literal has a meaning. -/
def limits : Json.Limits := ⟨some 127, true⟩

/-- Events if the tree is an array of them, else one event. -/
def ofJson? (j : Json) : Option Body :=
  ((j.list? Event.ofJson?).map many).or ((Event.ofJson? j).map one)

/-- The body that a text writes. -/
def read (bs : List UInt8) : Except BodyFault Body :=
  match Json.readPrefix limits bs with
  | none => .error .malformed
  | some (j, rest) => match ofJson? j with
    | none => .error .shape
    | some b => if Json.onlyBlanks rest then .ok b else .error .malformed

/-- The events of a body, in order. -/
def events : Body → List Event
  | .many es => es
  | .one e => [e]

end Body

end ChangeRelay.Wire
