import ChangeRelay.Log
import ChangeRelay.Pipeline
import ChangeRelay.Reaction.State
import ChangeRelay.Wire.Checked

/-!
# The steps of a reaction handler

Any number of deliveries are in progress at once. A delivery whose id is known is not applied: if
the id was applied, it gets the remembered reply, and if it is being applied, it waits for that
delivery and shares its reply. As in a dispatcher, `step` takes one step of one delivery, and the
labels say which.

Model of `handle_invocation` of `ReactionHandlerCore` with `validate` and `await_in_flight`, cut at
its waits. The guard `InFlight` is the phase of a delivery that the pipeline has: its `complete` and
`fail` are parts of `answer`, and its `drop` is part of `drop`.

* `arrive`: the invocation is looked up in the window, checked, and handed to the pipeline.
* `answer`: the pipeline gave its verdict, and every delivery that waited for it is released.
* `resume`: a released delivery replies.
* `expire`: a waiting delivery has waited as long as it may.
* `drop`: the caller gave up. The id is forgotten, and those who waited for it are released.
-/

namespace ChangeRelay.Reaction

inductive Label
  | arrive (id : CallId) (invocation : Wire.Invocation)
  | answer (id : CallId) (verdict : Pipeline.Verdict)
  | resume (id : CallId)
  | expire (id : CallId)
  | drop (id : CallId)
deriving DecidableEq

/-- What a step does to the world around. -/
inductive Effect
  | log (line : Log.Line)
  /-- The pipeline is handed an invocation. -/
  | apply (id : CallId) (invocation : Invocation)
  /-- A delivery that waited for another has been released. -/
  | wake (id : CallId)
  /-- As many invocations have been applied as were to be. -/
  | stop
  | reply (id : CallId) (reply : InvocationReply)
deriving DecidableEq

/-- Checks an invocation: it is well formed, its query is served, and no identity stands in two of
its payload's lists. -/
def check (s : Settings) (i : Wire.Invocation) : Except Invalid Invocation :=
  match i.check with
  | .error cause => .error cause
  | .ok invocation =>
    if !s.queries.isEmpty && !s.queries.contains invocation.query then
      .error (.unknownQuery invocation.query)
    else match invocation.payload.overlap? s.recordIdField with
      | some overlap => .error (.overlappingRecords overlap)
      | none => .ok invocation

/-- What the sender of an applied invocation is told. -/
def appliedReply (i : Invocation) : InvocationReply :=
  ⟨true, "applied " ++ decimal i.payload.recordCount ++ " records for query " ++ i.query ++
    " (sequence " ++ decimal i.payload.sequence.toNat ++ ")", i.id⟩

/-- What the sender of an invocation that was not applied is told. -/
def failedReply (id reason : String) : InvocationReply := ⟨false, reason, id⟩

/-- What is told to a delivery that waited for one that was dropped. -/
def interruptedReply (id : String) : InvocationReply :=
  failedReply id "earlier delivery of this invocation was interrupted; retry"

/-- What is told to a delivery that waited too long for another. -/
def unfinishedReply (s : Settings) (id : String) : InvocationReply :=
  failedReply id ("invocation still being applied after " ++ s.timeout.text ++ "; retry")

/-- What is logged of the metadata that ties a checked invocation to its cause. -/
def correlationLines (s : Settings) (i : Invocation) : List Effect :=
  match s.correlationKey with
  | none => []
  | some key => match i.metadata.get? key with
    | some value =>
      [.log ⟨.info, "invocation correlation",
        [("invocation_id", i.id), ("query_id", i.query), ("key", key), ("value", value)]⟩]
    | none =>
      [.log ⟨.debug, "no correlation metadata", [("invocation_id", i.id), ("key", key)]⟩]

/-- How many applied ids are remembered. -/
def Settings.remembered (s : Settings) : Nat := max s.capacity 1

namespace State

/-- Releases the deliveries that wait for `owner`. -/
def release (st : State) (owner : CallId) (reply? : Option InvocationReply) :
    State × List Effect :=
  let waits (d : Delivery) : Bool := d.phase = .awaiting owner
  ({ st with deliveries := st.deliveries.map fun _ d =>
      if waits d then { d with phase := .released reply? } else d },
    (st.deliveries.entries.filter fun p => waits p.2).map fun p => .wake p.1)

/-- Ends a delivery that was not applied: its id is forgotten. -/
def fail (st : State) (id : CallId) (reply : InvocationReply) : State × List Effect :=
  let (st, wakes) := { st with
    window := st.window.abandon reply.id
    deliveries := st.deliveries.erase id }.release id (some reply)
  (st, wakes ++ [.reply id reply])

/-- A delivery that is the first of its id. -/
def deliver (s : Settings) (st : State) (id : CallId) (i : Wire.Invocation) : State × List Effect :=
  let st := { st with window := st.window.begin i.id id }
  match check s i with
  | .error cause =>
    let (st, effects) :=
      { st with counts := st.counts.reject }.fail id (failedReply i.id cause.message)
    (st, .log ⟨.warn, "invocation rejected", [("invocation_id", i.id), ("err", cause.message)]⟩ ::
      effects)
  | .ok invocation =>
    ({ st with deliveries := st.deliveries.set id ⟨i.id, .applying invocation⟩ },
      correlationLines s invocation ++ [.apply id invocation])

/-- An invocation is delivered. -/
def arrive (s : Settings) (st : State) (id : CallId) (i : Wire.Invocation) :
    State × List Effect :=
  let st := { st with counts := st.counts.receive }
  if i.id.isEmpty then
    ({ st with counts := st.counts.reject },
      [.log ⟨.warn, "invocation rejected: empty id", [("query_id", i.query)]⟩,
        .reply id (failedReply i.id Invalid.emptyInvocationId.message)])
  else match st.window.seen? i.id with
    | some (.done reply) =>
      ({ st with counts := st.counts.duplicate },
        [.log ⟨.debug, "duplicate invocation answered from window", [("invocation_id", i.id)]⟩,
          .reply id reply])
    | some (.inFlight owner) =>
      ({ st with
          counts := st.counts.duplicate
          deliveries := st.deliveries.set id ⟨i.id, .awaiting owner⟩ },
        [.log ⟨.debug, "duplicate of an in-flight invocation; awaiting it",
          [("invocation_id", i.id)]⟩])
    | none => st.deliver s id i

/-- Raises the signal to stop if as many invocations were applied as were to be. -/
def stopIfDone (s : Settings) (st : State) : State × List Effect :=
  match s.stopAfter with
  | none => (st, [])
  | some limit =>
    if .ofNat st.counts.applied = limit then
      ({ st with stopped := true },
        [.log ⟨.info, "invocation limit reached; signalling stop",
          [("limit", decimal limit.toNat)]⟩, .stop])
    else (st, [])

/-- The pipeline gave its verdict. -/
def answer (s : Settings) (st : State) (id : CallId) (i : Invocation) :
    Pipeline.Verdict → State × List Effect
  | .failed fault =>
    let (st, effects) :=
      { st with counts := st.counts.reject }.fail id (failedReply i.id fault.message)
    (st, .log ⟨.warn, "pipeline failed to apply invocation",
      [("invocation_id", i.id), ("err", fault.message)]⟩ :: effects)
  | .taken =>
    let reply := appliedReply i
    let (st, wakes) := { st with
      counts := st.counts.apply i.payload
      window := st.window.complete s.remembered i.id reply
      deliveries := st.deliveries.erase id }.release id (some reply)
    let (st, stops) := st.stopIfDone s
    (st, wakes ++ stops ++ [.reply id reply])

/-- The caller of a delivery gave up. -/
def drop (st : State) (id : CallId) (d : Delivery) : State × List Effect :=
  let st := { st with deliveries := st.deliveries.erase id }
  match d.phase with
  | .applying _ => { st with window := st.window.abandon d.id }.release id none
  | _ => (st, [])

end State

/-- One step, if it can be taken. -/
def step (s : Settings) (st : State) : Label → Option (State × List Effect)
  | .arrive id i => if st.deliveries.contains id then none else some (st.arrive s id i)
  | .answer id verdict => match st.deliveries.get? id with
    | some ⟨_, .applying i⟩ => some (st.answer s id i verdict)
    | _ => none
  | .resume id => match st.deliveries.get? id with
    | some ⟨x, .released reply?⟩ =>
      some ({ st with deliveries := st.deliveries.erase id },
        [.reply id (reply?.getD (interruptedReply x))])
    | _ => none
  | .expire id => match st.deliveries.get? id with
    | some ⟨x, .awaiting _⟩ =>
      some ({ st with deliveries := st.deliveries.erase id },
        [.reply id (unfinishedReply s x)])
    | _ => none
  | .drop id => match st.deliveries.get? id with
    | some d => some (st.drop id d)
    | none => none

end ChangeRelay.Reaction
