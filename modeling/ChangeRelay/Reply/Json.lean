import ChangeRelay.Json.Printer
import ChangeRelay.Reply

/-!
# Replies in JSON

A reply is written with all its members. `ofJson?` asks for all of them back; `ofJsonLenient?` takes
what is left out to be false, empty or zero.

The strict reading is that of the checked `DispatchResponse` and `InvocationResponse`, and the
lenient one that of the former's wire type.
-/

namespace ChangeRelay

namespace DispatchReply

def names : List String := ["success", "message", "events_processed"]

def json (r : DispatchReply) : Json :=
  .record [("success", .bool r.success), ("message", .text r.message),
    ("events_processed", .int r.processed.toNat)]

def ofJson? (j : Json) : Option DispatchReply := do
  match ← j.values? names with
  | [success, message, processed] =>
    return {
      success := ← Json.required Json.bool? success
      message := ← Json.required Json.text? message
      processed := ← Json.required Json.nat64? processed }
  | _ => none

def ofJsonLenient? (j : Json) : Option DispatchReply := do
  match ← j.values? names with
  | [success, message, processed] =>
    return {
      success := ← Json.orElse false Json.bool? success
      message := ← Json.orElse "" Json.text? message
      processed := ← Json.orElse 0 Json.nat64? processed }
  | _ => none

end DispatchReply

namespace InvocationReply

def names : List String := ["success", "message", "invocation_id"]

def json (r : InvocationReply) : Json :=
  .record [("success", .bool r.success), ("message", .text r.message),
    ("invocation_id", .text r.id)]

def ofJson? (j : Json) : Option InvocationReply := do
  match ← j.values? names with
  | [success, message, id] =>
    return {
      success := ← Json.required Json.bool? success
      message := ← Json.required Json.text? message
      id := ← Json.required Json.text? id }
  | _ => none

end InvocationReply

end ChangeRelay
