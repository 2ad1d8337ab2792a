import ChangeRelay.Change.Json
import ChangeRelay.Json.Reader
import ChangeRelay.Result.Payload

/-!
# Results in JSON

The JSON form of values, records, payloads and invocations. A value is a JSON scalar: integers stay
integers and doubles doubles, and an integer beyond 63 bits is refused instead of being rounded.

This is what `Serialize` and `Deserialize` of `Value`, `ResultRecord`, `ReactionPayload` and
`ReactionInvocation` come to.
-/

namespace ChangeRelay

namespace Value

/-- A value as a scalar. A double that is not a finite number is written as `null`. -/
def json : Value → Json
  | .string s => .text s
  | .double d => .double d
  | .integer i => .int i.toInt
  | .boolean b => .bool b
  | .null => .null

/-- Why a text holds no value. -/
inductive Unread
  /-- The text is no JSON, or stands for no number or text. -/
  | malformed
  /-- An integer that fits 64 bits without a sign, but not with one. -/
  | outOfRange (n : Nat)
  /-- The text starts an array. -/
  | sequence
  /-- The text starts an object. -/
  | map
deriving DecidableEq, Repr

/-- The wording of a refusal, where it has one of its own. -/
def Unread.message? : Unread → Option String
  | .malformed => none
  | .outOfRange n => some ("integer " ++ decimal n ++ " is out of range for i64")
  | .sequence => some "invalid type: sequence, expected a string, number, boolean or null"
  | .map => some "invalid type: map, expected a string, number, boolean or null"

/-- The value of a number. -/
def ofNumber : Number → Except Unread Value
  | .integer i =>
    if i < 0x8000000000000000 then .ok (.integer (Int64.ofInt i)) else .error (.outOfRange i.toNat)
  | .double d => .ok (.double d)

/-- The value that a tree stands for. -/
def ofJson : Json → Except Unread Value
  | .null => .ok .null
  | .bool b => .ok (.boolean b)
  | .number n => match n.number? with
    | some n => ofNumber n
    | none => .error .malformed
  | .string (some s) => .ok (.string s)
  | .string none => .error .malformed
  | .array _ => .error .sequence
  | .object _ => .error .map

/-- The value that a text stands for. An array or object is refused at its first byte, and a number
before what follows it. -/
def read (bs : List UInt8) : Except Unread Value :=
  match Json.Reader.skipBlanks bs with
  | 0x5B :: _ => .error .sequence
  | 0x7B :: _ => .error .map
  | bs => match Json.readPrefix .none bs with
    | none => .error .malformed
    | some (j, rest) => do
      let v ← ofJson j
      if Json.onlyBlanks rest then .ok v else .error .malformed

def ofJson? (j : Json) : Option Value := (ofJson j).toOption

end Value

/-- A record as an object. -/
def recordJson (r : Record) : Json := .record (r.entries.map fun p => (p.1, p.2.json))

/-- A record from an object. -/
def recordOfJson? (j : Json) : Option Record := (j.members? Value.ofJson?).map .ofList

namespace Payload

def names : List String := ["sequence", "added", "updated", "deleted"]

def recordsJson (records : List Record) : Json := .array (records.map recordJson)

def json (p : Payload) : Json :=
  .record [("sequence", .int p.sequence.toNat), ("added", recordsJson p.added),
    ("updated", recordsJson p.updated), ("deleted", recordsJson p.deleted)]

def ofJson? (j : Json) : Option Payload := do
  match ← j.values? names with
  | [sequence, added, updated, deleted] =>
    return {
      sequence := ← Json.required Json.nat64? sequence
      added := ← Json.required (Json.list? recordOfJson?) added
      updated := ← Json.required (Json.list? recordOfJson?) updated
      deleted := ← Json.required (Json.list? recordOfJson?) deleted }
  | _ => none

end Payload

namespace Invocation

def names : List String := ["id", "timestamp", "query_id", "metadata", "payload"]

def json (i : Invocation) : Json :=
  .record [("id", .text i.id), ("timestamp", .int i.timestamp.toInt), ("query_id", .text i.query),
    ("metadata", i.metadata.json), ("payload", i.payload.json)]

def ofJson? (j : Json) : Option Invocation := do
  match ← j.values? names with
  | [id, timestamp, query, metadata, payload] =>
    return {
      id := ← Json.required Json.text? id
      timestamp := ← Json.required Json.int64? timestamp
      query := ← Json.required Json.text? query
      metadata := ← Json.required Dict.ofJson? metadata
      payload := ← Json.required Payload.ofJson? payload }
  | _ => none

end Invocation

end ChangeRelay
