import ChangeRelay.Dispatch.Step
import ChangeRelay.Host.State
import ChangeRelay.Reaction.Step

/-!
# The steps of a host

A request comes in, gets a slot or waits for one, and reaches the dispatcher or the reaction
handler once it has it; the slot goes back when the request is answered or dropped. `step` takes
one step of one request, as in the dispatcher and the reaction handler, whose own steps are among
the labels.

Model of what the handlers of a `ServiceHost` do around its two cores: `acquire` of `WorkerPool`,
the call itself, and the permit that is given back in the end. `shutdown` is the host's own.

* `request`: a request comes in and asks for a slot.
* `resume`: a request that waits for a slot has been called.
* `expire`: it has waited as long as it may, and is refused.
* `dispatch`, `reaction`: a request that has its slot takes a step.
* `giveBack`: a slot that was only kept is given back.
* `drop`: the caller gave up.
* `shutdown`: no request gets a slot from now on.
-/

namespace ChangeRelay.Host

inductive Label
  | request (id : CallId) (work : Work)
  | resume (id : CallId)
  | expire (id : CallId)
  | dispatch (label : Dispatch.Label)
  | reaction (label : Reaction.Label)
  | giveBack (id : CallId)
  | drop (id : CallId)
  | shutdown
deriving DecidableEq

/-- What a step does to the world around. -/
inductive Effect
  | log (line : Log.Line)
  | offer (id : CallId) (source : String) (event : Event)
  | apply (id : CallId) (invocation : Invocation)
  /-- A request that waited can go on. -/
  | wake (id : CallId)
  /-- A request has got the slot that it asked to keep. -/
  | kept (id : CallId)
  | refuse (id : CallId) (refusal : Pool.Refusal)
  | reply (id : CallId) (reply : Reply)
  /-- The host is to stop. -/
  | stop
deriving DecidableEq

/-- Whether a step of the dispatcher is one that a request takes by itself. -/
def isOwnStep : Dispatch.Label → Bool
  | .arrive _ _ => false
  | .drop _ => false
  | _ => true

/-- Whether a step of the reaction handler is one that a delivery takes by itself. -/
def isOwnDelivery : Reaction.Label → Bool
  | .arrive _ _ => false
  | .drop _ => false
  | _ => true

namespace State

/-- Takes over a pool, and wakes who was handed a slot. -/
def withPool (st : State) (p : Pool × Option CallId) : State × List Effect :=
  ({ st with pool := p.1 }, p.2.toList.map .wake)

/-- Takes over what the dispatcher does; a reply gives the slot back. -/
def dispatched (st : State) : List Dispatch.Effect → State × List Effect
  | [] => (st, [])
  | .log line :: es =>
    let (st, rest) := st.dispatched es
    (st, .log line :: rest)
  | .offer id source event :: es =>
    let (st, rest) := st.dispatched es
    (st, .offer id source event :: rest)
  | .wake id :: es =>
    let (st, rest) := st.dispatched es
    (st, .wake id :: rest)
  | .reply id reply :: es =>
    let (st, wakes) := st.withPool (st.pool.release id)
    let (st, rest) := st.dispatched es
    (st, wakes ++ .reply id (.dispatch reply) :: rest)

/-- Takes over what the reaction handler does; a reply gives the slot back. -/
def reacted (st : State) : List Reaction.Effect → State × List Effect
  | [] => (st, [])
  | .log line :: es =>
    let (st, rest) := st.reacted es
    (st, .log line :: rest)
  | .apply id invocation :: es =>
    let (st, rest) := st.reacted es
    (st, .apply id invocation :: rest)
  | .wake id :: es =>
    let (st, rest) := st.reacted es
    (st, .wake id :: rest)
  | .stop :: es =>
    let (st, rest) := st.reacted es
    (st, .stop :: rest)
  | .reply id reply :: es =>
    let (st, wakes) := st.withPool (st.pool.release id)
    let (st, rest) := st.reacted es
    (st, wakes ++ .reply id (.invocation reply) :: rest)

/-- A request that has its slot reaches what it is for. -/
def enter (s : Settings) (st : State) (id : CallId) : Work → State × List Effect
  | .dispatch request =>
    let (dispatch, effects) := st.dispatch.arrive s.dispatch id request
    { st with dispatch }.dispatched effects
  | .handle invocation =>
    let (reaction, effects) := st.reaction.arrive s.reaction id invocation
    { st with reaction }.reacted effects
  | .keep => (st, [.kept id])

/-- A request comes in. -/
def request (s : Settings) (st : State) (id : CallId) (work : Work) : State × List Effect :=
  match st.pool.acquire id with
  | (pool, .granted) => { st with pool }.enter s id work
  | (pool, .refused refusal) => ({ st with pool }, [.refuse id refusal])
  | (pool, .queued) => ({ st with pool, waiting := st.waiting.set id work }, [])

/-- Whether a request is in progress. -/
def contains (st : State) (id : CallId) : Bool :=
  id ∈ st.pool.line ∨ id ∈ st.pool.handed ∨ id ∈ st.pool.holders

/-- Whether a request has a slot and nothing else. -/
def keeps (st : State) (id : CallId) : Bool :=
  id ∈ st.pool.holders ∧ !st.dispatch.calls.contains id ∧ !st.reaction.deliveries.contains id

/-- A caller gave up: its request is taken out of wherever it is. -/
def drop (s : Settings) (st : State) (id : CallId) : State × List Effect :=
  let (dispatch, dispatchEffects) :=
    (Dispatch.step s.dispatch st.dispatch (.drop id)).getD (st.dispatch, [])
  let (reaction, reactionEffects) :=
    (Reaction.step s.reaction st.reaction (.drop id)).getD (st.reaction, [])
  let (st, left) := { st with dispatch }.dispatched dispatchEffects
  let (st, released) := { st with reaction }.reacted reactionEffects
  let (st, handed) := { st with waiting := st.waiting.erase id }.withPool (st.pool.leave id)
  (st, left ++ released ++ handed)

end State

/-- One step, if it can be taken. -/
def step (s : Settings) (st : State) : Label → Option (State × List Effect)
  | .request id work => if st.contains id then none else some (st.request s id work)
  | .resume id => match st.pool.resume id, st.waiting.get? id with
    | some (p, outcome), some work =>
      let (st, wakes) := { st with waiting := st.waiting.erase id }.withPool p
      match outcome with
      | .ok () =>
        let (st, effects) := st.enter s id work
        some (st, wakes ++ effects)
      | .error refusal => some (st, wakes ++ [.refuse id refusal])
    | _, _ => none
  | .expire id => match st.pool.expire id with
    | some (pool, refusal) =>
      some ({ st with pool, waiting := st.waiting.erase id }, [.refuse id refusal])
    | none => none
  | .dispatch label =>
    if isOwnStep label then
      (Dispatch.step s.dispatch st.dispatch label).map fun r =>
        { st with dispatch := r.1 }.dispatched r.2
    else none
  | .reaction label =>
    if isOwnDelivery label then
      (Reaction.step s.reaction st.reaction label).map fun r =>
        { st with reaction := r.1 }.reacted r.2
    else none
  | .giveBack id => if st.keeps id then some (st.withPool (st.pool.release id)) else none
  | .drop id => if st.contains id then some (st.drop s id) else none
  | .shutdown =>
    some ({ st with pool := st.pool.close, shutdown := true },
      (st.pool.line ++ st.pool.handed).map .wake ++ [.stop])

end ChangeRelay.Host
