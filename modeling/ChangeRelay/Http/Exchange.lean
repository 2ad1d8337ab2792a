import ChangeRelay.Http.Request
import ChangeRelay.Simulation.Run

/-!
# Exchanges

A plain request to a host on a clock, and the answer to it. What a request comes to is known before
the host is asked, or else the host's counters or the host's work decide it.

Model of a handler behind `router`: `default_events`, `source_events`, `health` or `metrics`, and
`busy` for whom the pool refuses.

* `Plan.answer?` gives the answer from what an errand of the plan came back with.
* `exchange` sends one request and waits for its answer.
-/

namespace ChangeRelay.Http

/-- What a caller does for a plan. -/
def Plan.errand : Plan → Simulation.Errand
  | .answer _ => .look
  | .counters => .look
  | .work request => .work (.dispatch request)

/-- The answer, once the caller is back; a caller that was called off has none. -/
def Plan.answer? (p : Plan) (outcome : Simulation.Outcome) : Option Answer :=
  match p, outcome with
  | .answer known, .counters _ _ => some known
  | .counters, .counters dispatch reaction => some (.ofCounters dispatch reaction)
  | .work _, .reply (.dispatch reply) => some (.ofReply reply)
  | .work _, .refused refusal => some (.ofRefusal refusal)
  | _, _ => none

/-- Sends a request and waits for its answer. -/
def exchange (router : Router) (w : Simulation.World) (r : Request) :
    Simulation.World × Option Answer :=
  let plan := r.plan router
  match w.run [.ofErrand plan.errand 0 none] with
  | (w, [some (outcome, _)]) => (w, plan.answer? outcome)
  | (w, _) => (w, none)

end ChangeRelay.Http
