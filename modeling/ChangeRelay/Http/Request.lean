import ChangeRelay.Host.Counts
import ChangeRelay.Http.MediaType
import ChangeRelay.Reply.Json
import ChangeRelay.Wire.Json

/-!
# Plain requests

Events can be sent to a host as JSON in the body of a plain request: to `/events` for the default
stream, or to `/sources/…/events` for the stream of a source. `/health` and `/metrics` can be asked
for. `Request.plan` says what is to be done about a request before anything is done: answer it at
once, look at the counters, or hand it to the host. What is wrong with a request is found in a fixed
order: its path, its method, its source, the type, the length and the text of its body.

Paths are told apart by a router that the host does not bring itself. `Router` has what such routers
differ in.

Model of `router` and of the extractors in front of its handlers.
-/

namespace ChangeRelay.Http

structure Request where
  method : String
  /-- The path, with a query or a fragment behind it, and perhaps a scheme and an authority in
  front. -/
  target : String
  contentType : Option String
  body : List UInt8
deriving DecidableEq, Repr

/-- An answer to a plain request. -/
structure Answer where
  status : Nat
  /-- Without a body, or with one that says nothing of use. -/
  body : Option Json
deriving Repr, Inhabited

/-- What can be asked of a host by a path. -/
inductive Endpoint
  /-- Where events go: to a source, named as in the path, or to the default stream. -/
  | events (source? : Option String)
  | health
  | metrics
deriving DecidableEq, Repr

/-- What may stand in a scheme. -/
def inScheme (c : Char) : Bool := c.isAlphanum || c = '+' || c = '-' || c = '.'

/-- A target without its scheme and its authority. A target has a path only behind these, or if it
begins with the slash of one. -/
def fromPath : List Char → List Char
  | '/' :: cs => '/' :: cs
  | cs => match cs.dropWhile inScheme with
    | ':' :: '/' :: '/' :: rest => rest.dropWhile fun c => c ≠ '/' && c ≠ '?' && c ≠ '#'
    | _ => []

/-- The path of a target, without what stands in front of it and behind it. -/
def path (target : String) : List Char :=
  (fromPath target.toList).takeWhile fun c => c ≠ '?' && c ≠ '#'

/-- The parts of a path between its slashes. -/
def segments : List Char → List (List Char)
  | [] => [[]]
  | c :: cs => match segments cs with
    | [] => []
    | s :: ss => if c = '/' then [] :: s :: ss else (c :: s) :: ss

/-- How a router reads a path. The route of `source_events` has a name for the part between its
slashes, and says nothing of an empty part. Routers are described as passing over it, and have been
seen to take it, so what is said of plain requests is said for either kind. -/
structure Router where
  /-- Whether it takes an empty part for an empty name. If it does not, then `/sources//events` is
  not the path of any source, and is answered with 404. -/
  takesEmpty : Bool
deriving DecidableEq, Repr

/-- Whether a part of a path can name a source. -/
def Router.names (router : Router) (part : String) : Bool := router.takesEmpty || !part.isEmpty

/-- What a path asks for. -/
def Endpoint.ofTarget? (router : Router) (target : String) : Option Endpoint :=
  match (segments (path target)).map String.ofList with
  | ["", "events"] => some (.events none)
  | ["", "health"] => some .health
  | ["", "metrics"] => some .metrics
  | ["", "sources", source, "events"] =>
    if router.names source then some (.events (some source)) else none
  | _ => none

/-- The value of a hexadecimal digit. -/
def hexDigit? (b : UInt8) : Option UInt8 :=
  if 0x30 ≤ b && b ≤ 0x39 then some (b - 0x30)
  else if 0x41 ≤ b && b ≤ 0x46 then some (b - 0x37)
  else if 0x61 ≤ b && b ≤ 0x66 then some (b - 0x57)
  else none

/-- Bytes in which a percent sign and two hexadecimal digits stand for one byte; a percent sign
without two digits stands for itself. -/
def percentDecode : List UInt8 → List UInt8
  | 0x25 :: a :: b :: bs => match hexDigit? a, hexDigit? b with
    | some x, some y => (16 * x + y) :: percentDecode bs
    | _, _ => 0x25 :: percentDecode (a :: b :: bs)
  | b :: bs => b :: percentDecode bs
  | [] => []

/-- The longest body that is read, in bytes. -/
def maxBody : Nat := 2 * 1024 * 1024

/-- What is to be done about a request. -/
inductive Plan
  | answer (answer : Answer)
  /-- The counters are to be shown. -/
  | counters
  | work (request : Dispatch.Request)
deriving Repr

/-- An answer that says only how a request failed. -/
def Plan.status (status : Nat) : Plan := .answer ⟨status, none⟩

namespace Request

/-- What the body of a request dispatches. -/
def events (r : Request) (dispatch : Wire.Body → Dispatch.Request) : Plan :=
  if !r.contentType.any isJson then .status 415
  else if maxBody < r.body.length then .status 413
  else match Wire.Body.read r.body with
    | .error .malformed => .status 400
    | .error .shape => .status 422
    | .ok body => .work (dispatch body)

/-- What a body sent for the default stream dispatches. -/
def ofDefault : Wire.Body → Dispatch.Request
  | .one event => .single event
  | .many events => .group events

/-- What a body sent for a source dispatches. -/
def ofSource (source : String) (body : Wire.Body) : Dispatch.Request :=
  .batch ⟨source, body.events, .empty⟩

/-- What is to be done about a request. -/
def plan (router : Router) (r : Request) : Plan :=
  match Endpoint.ofTarget? router r.target with
  | none => .status 404
  | some (.events source?) =>
    if r.method ≠ "POST" then .status 405
    else match source? with
      | none => r.events ofDefault
      | some source => match Text.ofBytes? (percentDecode (Text.bytes source)) with
        | none => .status 400
        | some source => r.events (ofSource source)
  | some .health =>
    if r.method = "GET" then .answer ⟨200, some (.record [("status", .text "ok")])⟩
    else if r.method = "HEAD" then .status 200
    else .status 405
  | some .metrics =>
    if r.method = "GET" then .counters
    else if r.method = "HEAD" then .status 200
    else .status 405

end Request

/-! ## Answers -/

/-- The counters of a host. -/
def countersJson (d : Dispatch.Counts) (r : Reaction.Counts) : Json :=
  .record [("dispatch", d.json), ("reaction", r.json)]

/-- The answer that shows the counters. -/
def Answer.ofCounters (d : Dispatch.Counts) (r : Reaction.Counts) : Answer :=
  ⟨200, some (countersJson d r)⟩

/-- The answer to events that were dispatched, whatever became of them. -/
def Answer.ofReply (reply : DispatchReply) : Answer := ⟨200, some reply.json⟩

/-- The answer to a request that got no slot. -/
def Answer.ofRefusal (refusal : Pool.Refusal) : Answer :=
  ⟨match refusal with
    | .busy _ _ => 429
    | .closed => 503,
    some (.record [("success", .bool false), ("message", .text refusal.message)])⟩

end ChangeRelay.Http
