import ChangeRelay.Change.Event
import ChangeRelay.Json.Printer

/-!
# Changes in JSON

The JSON form of checked changes. Every member has to be there when a form is read, except that a
change of a node has no relationship.

This is what `Serialize` and `Deserialize` of `ChangeOp`, `Relationship`, `SourceChangeEvent` and
`EventBatch` come to.
-/

namespace ChangeRelay

namespace TextSet

def json (s : TextSet) : Json := .array (s.toList.map Json.text)

def ofJson? (j : Json) : Option TextSet := (j.list? Json.text?).map ofList

end TextSet

/-- A dictionary of texts as an object. -/
def Dict.json (d : Dict String) : Json := .record (d.entries.map fun p => (p.1, .text p.2))

/-- A dictionary of texts from an object. -/
def Dict.ofJson? (j : Json) : Option (Dict String) := (j.members? Json.text?).map .ofList

namespace Op

def json (o : Op) : Json := .text o.text

def ofJson? (j : Json) : Option Op := j.name?.bind ofText?

end Op

namespace Relationship

def names : List String := ["start_id", "end_id", "start_labels", "end_labels"]

def json (r : Relationship) : Json :=
  .record [("start_id", .text r.startId), ("end_id", .text r.endId),
    ("start_labels", r.startLabels.json), ("end_labels", r.endLabels.json)]

def ofJson? (j : Json) : Option Relationship := do
  match ← j.values? names with
  | [startId, endId, startLabels, endLabels] =>
    return {
      startId := ← Json.required Json.text? startId
      endId := ← Json.required Json.text? endId
      startLabels := ← Json.required TextSet.ofJson? startLabels
      endLabels := ← Json.required TextSet.ofJson? endLabels }
  | _ => none

end Relationship

namespace Event

def names : List String :=
  ["sequence_number", "timestamp", "op", "id", "labels", "properties", "relationship"]

/-- A change of a node has no member for a relationship. -/
def json (e : Event) : Json :=
  .record (
    [("sequence_number", .int e.sequence.toNat), ("timestamp", .int e.timestamp.toInt),
      ("op", e.op.json), ("id", .text e.id), ("labels", e.labels.json),
      ("properties", e.properties.json)] ++
    match e.relationship with
    | none => []
    | some r => [("relationship", r.json)])

def ofJson? (j : Json) : Option Event := do
  match ← j.values? names with
  | [sequence, timestamp, op, id, labels, properties, relationship] =>
    return {
      sequence := ← Json.required Json.nat64? sequence
      timestamp := ← Json.required Json.int64? timestamp
      op := ← Json.required Op.ofJson? op
      id := ← Json.required Json.text? id
      labels := ← Json.required TextSet.ofJson? labels
      properties := ← Json.required Dict.ofJson? properties
      relationship := ← Json.orElse none (Json.nullable? Relationship.ofJson?) relationship }
  | _ => none

end Event

namespace Batch

def names : List String := ["source_id", "metadata", "events"]

def json (b : Batch) : Json :=
  .record [("source_id", .text b.source), ("metadata", b.metadata.json),
    ("events", .array (b.events.map Event.json))]

def ofJson? (j : Json) : Option Batch := do
  match ← j.values? names with
  | [source, metadata, events] =>
    return {
      source := ← Json.required Json.text? source
      metadata := ← Json.required Dict.ofJson? metadata
      events := ← Json.required (Json.list? Event.ofJson?) events }
  | _ => none

end Batch

end ChangeRelay
