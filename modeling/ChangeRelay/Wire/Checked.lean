import ChangeRelay.Change.Event
import ChangeRelay.Invalid
import ChangeRelay.Wire.Message

/-!
# Checking messages

Every check on a message is made here, once, on the way from its travelling form to the domain:
`check` gives the domain value or the first reason to refuse, and `wire` goes back.

Model of the conversions between the wire types and the checked ones (`try_from` and `from`), with
`value_from_wire` and `record_from_wire`.
-/

namespace ChangeRelay

/-! ## Events -/

namespace Wire

/-- The relationship of the event `id`: both ends have to be named. -/
def Relationship.check (id : String) (r : Relationship) : Except Invalid ChangeRelay.Relationship :=
  if r.startId = "" then .error (.incompleteRelationship id .start)
  else if r.endId = "" then .error (.incompleteRelationship id .finish)
  else .ok ⟨r.startId, r.endId, .ofList r.startLabels, .ofList r.endLabels⟩

/-- The relationship of the event `id`, if it has one. -/
def Relationship.check? (id : String) :
    Option Relationship → Except Invalid (Option ChangeRelay.Relationship)
  | none => .ok none
  | some r => (r.check id).map some

/-- An event needs an id, a kind of change and, for a relationship, both ends. -/
def Event.check (e : Event) : Except Invalid ChangeRelay.Event :=
  if e.id = "" then .error .emptyId
  else match Op.ofText? e.op with
    | none => .error (.invalidOp e.op)
    | some op =>
      (Relationship.check? e.id e.relationship).map fun relationship =>
        ⟨e.sequence, e.timestamp, op, e.id, .ofList e.labels, e.properties, relationship⟩

end Wire

/-- The travelling form: labels listed in order. -/
def Relationship.wire (r : Relationship) : Wire.Relationship :=
  ⟨r.startId, r.endId, r.startLabels.toList, r.endLabels.toList⟩

/-- The travelling form: labels listed in order. -/
def Event.wire (e : Event) : Wire.Event :=
  { sequence := e.sequence
    timestamp := e.timestamp
    op := e.op.text
    id := e.id
    labels := e.labels.toList
    properties := e.properties
    relationship := e.relationship.map Relationship.wire }

def Batch.wire (b : Batch) : Wire.Batch := ⟨b.source, b.events.map Event.wire, b.metadata⟩

/-! ## Results -/

namespace Wire

/-- What a field holds; a null's number is dropped. -/
def Scalar.value : Scalar → ChangeRelay.Value
  | .string s => .string s
  | .double d => .double d
  | .integer i => .integer i
  | .boolean b => .boolean b
  | .null _ => .null

/-- A field's value has to be set. -/
def Value.check (field : String) : Value → Except Invalid ChangeRelay.Value
  | none => .error (.emptyValue field)
  | some s => .ok s.value

/-- Every field's value has to be set; the first field without one, in order of name, counts. -/
def Record.check (r : Record) : Except Invalid ChangeRelay.Record := r.traverse Value.check

def Payload.check (p : Payload) : Except Invalid ChangeRelay.Payload := do
  let added ← p.added.mapM Record.check
  let updated ← p.updated.mapM Record.check
  let deleted ← p.deleted.mapM Record.check
  return ⟨p.sequence, added, updated, deleted⟩

/-- An invocation needs an id, a query and a payload. -/
def Invocation.check (i : Invocation) : Except Invalid ChangeRelay.Invocation :=
  if i.id = "" then .error .emptyInvocationId
  else if i.query = "" then .error .emptyQueryId
  else match i.payload with
    | none => .error .missingPayload
    | some p => p.check.map fun payload => ⟨i.id, i.timestamp, i.query, i.metadata, payload⟩

end Wire

/-- The travelling form; a null's number is 0. -/
def Value.wire : Value → Wire.Value
  | .string s => some (.string s)
  | .double d => some (.double d)
  | .integer i => some (.integer i)
  | .boolean b => some (.boolean b)
  | .null => some (.null 0)

def recordWire (r : Record) : Wire.Record := r.map Value.wire

def Payload.wire (p : Payload) : Wire.Payload :=
  ⟨p.sequence, p.added.map recordWire, p.updated.map recordWire, p.deleted.map recordWire⟩

def Invocation.wire (i : Invocation) : Wire.Invocation :=
  ⟨i.id, i.timestamp, i.query, i.metadata, some i.payload.wire⟩

end ChangeRelay
