import ChangeRelay.Dispatch.State

/-!
# The steps of a dispatcher

Any number of calls are in progress at once, and each works in steps: from one point where it has
to wait to the next. `step` takes one step of one call. The order in which the calls take their
steps, what the pipeline says and which calls are dropped come in as labels, so a run of labels is
one way that things can go.

Model of `dispatch_single`, `dispatch_batch` and `dispatch_default` of `DispatcherCore`, which share
`run`, cut at its waits: for the table (`stream`), for the lock of a stream, and for the sink.

* `arrive`: the events are counted. An empty call is answered at once.
* `lookup`: the call finds its stream or opens it; past the limit of streams it is refused.
* `join`: it goes to the end of the stream's line.
* `proceed`: the first in line sets to work.
* `answer`: the pipeline gave its verdict on the event on offer.
* `drop`: the caller gave up; what was accepted stays accepted.
-/

namespace ChangeRelay.Dispatch

inductive Label
  | arrive (id : CallId) (request : Request)
  | lookup (id : CallId)
  | join (id : CallId)
  | proceed (id : CallId)
  | answer (id : CallId) (verdict : Pipeline.Verdict)
  | drop (id : CallId)
deriving DecidableEq

/-- What a step does to the world around. -/
inductive Effect
  | log (line : Log.Line)
  /-- The pipeline is handed an event. -/
  | offer (id : CallId) (source : String) (event : Event)
  /-- A call that waited in line has become the first. -/
  | wake (id : CallId)
  | reply (id : CallId) (reply : DispatchReply)
deriving DecidableEq

/-- What a call without events is told. -/
def emptyReply : DispatchReply := ⟨true, "empty batch; nothing to dispatch", 0⟩

/-- What a refused call is told. -/
def refusal (cause : Invalid) : DispatchReply := ⟨false, cause.message, 0⟩

namespace Counts

/-- The totals once a request has come in. -/
def receive (c : Counts) : Request → Counts
  | .single _ => { c with received := c.received + 1 }
  | .group es => { c with batches := c.batches + 1, received := c.received + es.length }
  | .batch b => { c with batches := c.batches + 1, received := c.received + b.events.length }

end Counts

/-- What is logged of an empty call. -/
def emptyLines : Request → List Effect
  | .batch b => [.log ⟨.debug, "empty batch", [("source_id", b.source)]⟩]
  | _ => []

/-- What is logged of a call that goes on to its stream. -/
def arrivalLines : Request → List Effect
  | .batch b =>
    [.log ⟨.debug, "dispatching batch",
      [("source_id", b.source), ("events", decimal b.events.length),
        ("metadata", Text.quoteMap (b.metadata.entries.map fun p => (p.1, Text.quote p.2)))]⟩]
  | _ => []

/-- Whether a request names no source where it has to. -/
def Request.lacksSource : Request → Bool
  | .batch b => b.source.isEmpty
  | _ => false

namespace State

/-- A request comes in. -/
def arrive (s : Settings) (st : State) (id : CallId) (request : Request) : State × List Effect :=
  let counts := st.counts.receive request
  let total := request.events.length
  if total = 0 then
    ({ st with counts }, emptyLines request ++ [.reply id emptyReply])
  else if request.lacksSource then
    ({ st with counts := { counts with rejected := counts.rejected + total } },
      [.log ⟨.warn, "batch rejected: empty source_id", [("events", decimal total)]⟩,
        .reply id (refusal .emptySource)])
  else
    let call : Call := ⟨.start (request.source s) request.events, .arrived⟩
    ({ st with counts, calls := st.calls.set id call }, arrivalLines request)

/-- A call looks for its stream. -/
def lookup (s : Settings) (st : State) (id : CallId) (call : Call) : State × List Effect :=
  let source := call.walk.source
  let found := st.calls.set id { call with phase := .found }
  if st.streams.contains source then ({ st with calls := found }, [])
  else if st.streams.size < s.maxStreams then
    ({ st with calls := found, streams := st.streams.set source .new }, [])
  else
    let total := call.walk.tally.total
    let cause := Invalid.sourceLimit source s.maxStreams
    ({ st with
        calls := st.calls.erase id
        counts := { st.counts with rejected := st.counts.rejected + total } },
      [.log ⟨.warn, "batch rejected",
          [("source_id", source), ("events", decimal total), ("err", cause.message)]⟩,
        .reply id (refusal cause)])

/-- Puts a call at the end of its stream's line. -/
def join (st : State) (id : CallId) (call : Call) : State :=
  { st with
    calls := st.calls.set id { call with phase := .inLine }
    streams := st.streams.modify call.walk.source fun stream =>
      { stream with line := stream.line ++ [id] } }

/-- Takes a call out of its stream's line; if it was the first, the next one is woken. -/
def leave (st : State) (source : String) (id : CallId) : State × List Effect :=
  let line := st.line source
  let rest := line.erase id
  ({ st with streams := st.streams.modify source fun stream => { stream with line := rest } },
    if line.head? = some id then rest.head?.toList.map .wake else [])

/-- Ends a call. -/
def close (st : State) (source : String) (id : CallId) : State × List Effect :=
  { st with calls := st.calls.erase id }.leave source id

/-- What follows when the walk of a call has stopped. -/
def halted (st : State) (id : CallId) (h : Halted) : State × List Effect :=
  let source := h.walk.source
  let lines := h.rejections.map fun r => Effect.log (r.line source)
  let st := { st with
    counts := { st.counts with rejected := st.counts.rejected + h.rejections.length } }
  match h.halt with
  | .offer event =>
    ({ st with calls := st.calls.set id ⟨h.walk, .offering event⟩ },
      lines ++ [.offer id source event])
  | .done =>
    let (st, wakes) := st.close source id
    (st, lines ++ wakes ++ [.reply id h.walk.tally.reply])

/-- The first in line sets to work. -/
def proceed (s : Settings) (st : State) (id : CallId) (call : Call) : State × List Effect :=
  st.halted id (call.walk.resume s (st.last? call.walk.source))

/-- The pipeline gave its verdict. -/
def answer (s : Settings) (st : State) (id : CallId) (call : Call) (event : Event)
    (verdict : Pipeline.Verdict) : State × List Effect :=
  let source := call.walk.source
  let (last?, h) := call.walk.settle s (st.last? source) event verdict
  let accepted := match verdict with
    | .taken => 1
    | .failed _ => 0
  { st with
    streams := st.streams.modify source fun stream => { stream with last? }
    counts := { st.counts with processed := st.counts.processed + accepted } }.halted id h

end State

/-- One step, if it can be taken. -/
def step (s : Settings) (st : State) : Label → Option (State × List Effect)
  | .arrive id request =>
    if st.calls.contains id then none else some (st.arrive s id request)
  | .lookup id => match st.calls.get? id with
    | some call => if call.phase = .arrived then some (st.lookup s id call) else none
    | none => none
  | .join id => match st.calls.get? id with
    | some call => if call.phase = .found then some (st.join id call, []) else none
    | none => none
  | .proceed id => match st.calls.get? id with
    | some call =>
      if call.phase = .inLine ∧ (st.line call.walk.source).head? = some id then
        some (st.proceed s id call)
      else none
    | none => none
  | .answer id verdict => match st.calls.get? id with
    | some call => match call.phase with
      | .offering event => some (st.answer s id call event verdict)
      | _ => none
    | none => none
  | .drop id => match st.calls.get? id with
    | some call => some (st.close call.walk.source id)
    | none => none

end ChangeRelay.Dispatch
