import ChangeRelay.Proofs.Result.Json

/-!
# Every message comes back from its JSON text

One statement for all messages that have a JSON form, checked or as they travel. Results hold values
whose kind is told by the text alone, so for them it is also said that integers stay integers and
doubles stay doubles; what reading a numeral makes of a double is rounding, and that it rounds to the
double that was written is assumed of each double that is in a result.

* **`messages_return`**: every message comes back, and no number changes its kind.
-/

namespace ChangeRelay.Json

/-- What is written of a message is read as that message. -/
structure MessagesReturn : Prop where
  relationship : ∀ r, Returns Relationship.json Relationship.ofJson? r
  event : ∀ e, Returns Event.json Event.ofJson? e
  batch : ∀ b, Returns Batch.json Batch.ofJson? b
  payload : ∀ p : Payload, (∀ d ∈ p.doubles, d.Survives) → Returns Payload.json Payload.ofJson? p
  invocation : ∀ i : Invocation, (∀ d ∈ i.payload.doubles, d.Survives) →
    Returns Invocation.json Invocation.ofJson? i
  dispatchReply : ∀ r, Returns DispatchReply.json DispatchReply.ofJson? r
  invocationReply : ∀ r, Returns InvocationReply.json InvocationReply.ofJson? r
  /-- A change that is not checked may leave out any member, and a reply from a host too. -/
  wireRelationship : ∀ r, Returns Wire.Relationship.json Wire.Relationship.ofJson? r
  wireEvent : ∀ e, Returns Wire.Event.json Wire.Event.ofJson? e
  wireBatch : ∀ b, Returns Wire.Batch.json Wire.Batch.ofJson? b
  wireReply : ∀ r, Returns DispatchReply.json DispatchReply.ofJsonLenient? r
  value : ∀ v : Value, (∀ d ∈ v.doubles, d.Survives) →
    Value.read (Text.bytes v.json.compact) = .ok v
  /-- No integer is read as a double. -/
  integer : ∀ i, Value.read (Text.bytes (Value.integer i).json.compact) = .ok (.integer i)
  /-- No finite double is read as an integer, whether or not it is read as itself. -/
  double : ∀ (d : Double) (v : Value), d.isFinite = true →
    Value.read (Text.bytes (Value.double d).json.compact) = .ok v → ∃ d', v = .double d'
  /-- The events of a request's body come back as a batch of them, -/
  many : ∀ es, Wire.Body.read (Text.bytes (Json.array (es.map Wire.Event.json)).compact) =
    .ok (.many es)
  /-- and the event of one that writes no array as that event. -/
  one : ∀ e : Wire.Event, Wire.Body.read (Text.bytes e.json.compact) = .ok (.one e)

/-- **Every message comes back from its JSON text**, and no number changes its kind. -/
theorem messages_return : MessagesReturn where
  relationship r := .of_legible r.legible_json r.ofJson?_json
  event e := .of_legible e.legible_json e.ofJson?_json
  batch b := .of_legible b.legible_json b.ofJson?_json
  payload p h := .of_legible p.legible_json (Payload.ofJson?_json h)
  invocation i h := .of_legible i.legible_json (Invocation.ofJson?_json h)
  dispatchReply r := .of_legible r.legible_json r.ofJson?_json
  invocationReply r := .of_legible r.legible_json r.ofJson?_json
  wireRelationship r := .of_legible (r.legible_json hasRoom_none) r.ofJson?_json
  wireEvent e := .of_legible (e.legible_json hasRoom_none) e.ofJson?_json
  wireBatch b := .of_legible (b.legible_json hasRoom_none) b.ofJson?_json
  wireReply r := .of_legible r.legible_json r.ofJsonLenient?_json
  value _ h := Value.read_json h
  integer i := Value.read_json (v := .integer i) fun _ h => nomatch h
  double _ _ finite h := Value.isDouble_of_read finite h
  many := Wire.Body.read_many
  one := Wire.Body.read_one

namespace Sample

/-- A half, a whole number, a zero with a sign, and numbers that are written with exponents. -/
def row : Record := .ofList [("half", .double ⟨0x4052200000000000⟩),
  ("whole", .double ⟨0x4008000000000000⟩), ("zero", .double ⟨0x8000000000000000⟩),
  ("large", .double ⟨0x4341C37937E08000⟩), ("small", .double ⟨1⟩), ("", .integer (-3)),
  ("\"\\\n😀", .string "\x01\"")]

def payload : Payload := ⟨0xFFFFFFFFFFFFFFFF, [row], [], [.ofList [("id", .null)]]⟩

end Sample

/-- The doubles of the sample are read as they were written, and so it comes back. -/
theorem messages_sample : (∀ d ∈ Sample.payload.doubles, d.Survives) ∧
    Returns Payload.json Payload.ofJson? Sample.payload := by
  have survive : ∀ d ∈ Sample.payload.doubles, d.Survives := by decide +kernel
  exact ⟨survive, messages_return.payload Sample.payload survive⟩

end ChangeRelay.Json
