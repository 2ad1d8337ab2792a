import ChangeRelay.Change.Json
import ChangeRelay.Dispatch.Settings
import ChangeRelay.Host.Address
import ChangeRelay.Json.Reader
import ChangeRelay.Reaction.Settings

/-!
# Preferences of a host

Where a host listens and how it works. Preferences are kept as JSON; names that are not known are
passed over and members that are left out take their defaults, so preferences of an older host can
be read.

Model of `HostPrefs`, with `request_timeout`, `dispatcher_config` and `reaction_config`.
-/

namespace ChangeRelay

namespace FailurePolicy

def name : FailurePolicy → String
  | .proceed => "continue"
  | .abort => "abort"

def ofName? (s : String) : Option FailurePolicy :=
  if s = "continue" then some .proceed else if s = "abort" then some .abort else none

end FailurePolicy

/-- The preferences of a host. -/
structure Prefs where
  dispatcherAddress : Address
  reactionAddress : Address
  /-- Without an address there is no endpoint for plain requests. -/
  httpAddress : Option Address
  defaultSource : String
  /-- How many requests are worked on at once. -/
  maxWorkers : UInt64
  /-- In seconds, for the wait for a worker and for each step of the pipeline. -/
  requestTimeout : UInt64
  failurePolicy : FailurePolicy
  maxStreams : UInt64
  /-- How many applied invocations are remembered. -/
  capacity : UInt64
  queries : TextSet
  recordIdField : String
  correlationKey : Option String
  stopAfter : Option UInt64
deriving DecidableEq, Repr

namespace Prefs

def default : Prefs :=
  { dispatcherAddress := .anyHost 50051
    reactionAddress := .anyHost 50052
    httpAddress := some (.anyHost 9000)
    defaultSource := ""
    maxWorkers := 10
    requestTimeout := 30
    failurePolicy := .proceed
    maxStreams := 10000
    capacity := 10000
    queries := .empty
    recordIdField := "id"
    correlationKey := some "x-query-sequence"
    stopAfter := none }

instance : Inhabited Prefs := ⟨default⟩

def timeout (p : Prefs) : Duration := .ofSeconds p.requestTimeout.toNat

/-- How the dispatcher of a host works. -/
def dispatch (p : Prefs) : Dispatch.Settings :=
  { defaultSource := p.defaultSource
    failurePolicy := p.failurePolicy
    timeout := p.timeout
    maxStreams := p.maxStreams.toNat }

/-- How the reaction handler of a host works. -/
def reaction (p : Prefs) : Reaction.Settings :=
  { queries := p.queries
    recordIdField := p.recordIdField
    capacity := p.capacity.toNat
    correlationKey := p.correlationKey
    stopAfter := p.stopAfter
    timeout := p.timeout }

/-! ## JSON -/

def names : List String :=
  ["source_dispatcher_addr", "reaction_handler_addr", "http_addr", "default_source_id",
    "max_workers", "request_timeout_secs", "batch_failure_policy", "max_source_streams",
    "dedup_capacity", "query_ids", "record_id_field", "correlation_metadata_key",
    "stop_after_invocations"]

def addressJson (a : Address) : Json := .text a.text

def natJson (n : UInt64) : Json := .int n.toNat

/-- A value that may be missing; `null` says that it is. -/
def optionJson {α : Type} (f : α → Json) (x : Option α) : Json := (x.map f).getD .null

def json (p : Prefs) : Json :=
  .record [("source_dispatcher_addr", addressJson p.dispatcherAddress),
    ("reaction_handler_addr", addressJson p.reactionAddress),
    ("http_addr", optionJson addressJson p.httpAddress),
    ("default_source_id", .text p.defaultSource),
    ("max_workers", natJson p.maxWorkers),
    ("request_timeout_secs", natJson p.requestTimeout),
    ("batch_failure_policy", .text p.failurePolicy.name),
    ("max_source_streams", natJson p.maxStreams),
    ("dedup_capacity", natJson p.capacity),
    ("query_ids", p.queries.json),
    ("record_id_field", .text p.recordIdField),
    ("correlation_metadata_key", optionJson .text p.correlationKey),
    ("stop_after_invocations", optionJson natJson p.stopAfter)]

def addressOfJson? (j : Json) : Option Address := j.text?.bind Address.ofText?

def policyOfJson? (j : Json) : Option FailurePolicy := j.name?.bind FailurePolicy.ofName?

def ofJson? (j : Json) : Option Prefs := do
  match ← j.values? names with
  | [dispatcherAddress, reactionAddress, httpAddress, defaultSource, maxWorkers, requestTimeout,
      failurePolicy, maxStreams, capacity, queries, recordIdField, correlationKey, stopAfter] =>
    return {
      dispatcherAddress := ← Json.orElse default.dispatcherAddress addressOfJson? dispatcherAddress
      reactionAddress := ← Json.orElse default.reactionAddress addressOfJson? reactionAddress
      httpAddress := ← Json.orElse default.httpAddress (Json.nullable? addressOfJson?) httpAddress
      defaultSource := ← Json.orElse default.defaultSource Json.text? defaultSource
      maxWorkers := ← Json.orElse default.maxWorkers Json.nat64? maxWorkers
      requestTimeout := ← Json.orElse default.requestTimeout Json.nat64? requestTimeout
      failurePolicy := ← Json.orElse default.failurePolicy policyOfJson? failurePolicy
      maxStreams := ← Json.orElse default.maxStreams Json.nat64? maxStreams
      capacity := ← Json.orElse default.capacity Json.nat64? capacity
      queries := ← Json.orElse default.queries TextSet.ofJson? queries
      recordIdField := ← Json.orElse default.recordIdField Json.text? recordIdField
      correlationKey :=
        ← Json.orElse default.correlationKey (Json.nullable? Json.text?) correlationKey
      stopAfter := ← Json.orElse default.stopAfter (Json.nullable? Json.nat64?) stopAfter }
  | _ => none

/-- The preferences that a text holds. -/
def read? (bs : List UInt8) : Option Prefs := (Json.read? bs).bind ofJson?

/-- The text in which preferences are kept. -/
def write (p : Prefs) : List UInt8 := Text.bytes p.json.pretty

end Prefs

end ChangeRelay
