import ChangeRelay.Change.Event
import ChangeRelay.Log
import ChangeRelay.Result.Payload

/-!
# The pipeline that only logs

A host without a pipeline of its own takes everything that it is handed and writes it into the log:
one line for each event or invocation, and the details on lines of the level `debug`.

Model of `LoggingSink` and `LoggingReactionSink`.
-/

namespace ChangeRelay

/-- Texts by name, as they stand in a line of the log. -/
def loggedProperties (d : Dict String) : String :=
  Text.quoteMap (d.entries.map fun p => (p.1, Text.quote p.2))

/-- What is logged of an event of a source. -/
def Event.logged (source : String) (e : Event) : List Log.Line :=
  let fields := [("source_id", source), ("seq", decimal e.sequence.toNat), ("op", e.op.text),
    ("id", e.id), ("labels", Text.quoteSet e.labels.toList)]
  let change : Log.Line := match e.relationship with
    | some r =>
      ⟨.info, "relationship change", fields ++ [("start_id", r.startId), ("end_id", r.endId)]⟩
    | none => ⟨.info, "node change", fields⟩
  [change, ⟨.debug, "event properties",
    [("source_id", source), ("id", e.id), ("properties", loggedProperties e.properties)]⟩]

/-- What is logged of a record of an invocation. -/
def loggedRecord (invocation : String) (set : RecordSet) (r : Record) : Log.Line :=
  ⟨.debug, "result record",
    [("invocation_id", invocation), ("set", set.name),
      ("record", Text.quoteMap (r.entries.map fun p => (p.1, p.2.inspect)))]⟩

/-- What is logged of an invocation. -/
def Invocation.logged (i : Invocation) : List Log.Line :=
  let p := i.payload
  ⟨.info, "reaction invocation",
    [("invocation_id", i.id), ("query_id", i.query), ("sequence", decimal p.sequence.toNat),
      ("added", decimal p.added.length), ("updated", decimal p.updated.length),
      ("deleted", decimal p.deleted.length)]⟩ ::
    [RecordSet.added, .updated, .deleted].flatMap fun set =>
      (p.records set).map (loggedRecord i.id set)

end ChangeRelay
