import ChangeRelay.Simulation.World

/-!
# Running tasks

A task that has its turn goes on until it has to wait: first comes what it waits for, then the end
of the host's patience, and last the end of the caller's own.
-/

namespace ChangeRelay.Simulation.World

/-- Hands a parcel to the pipeline for the task that has a call at the host. -/
def handOver (w : World) (call : CallId) (parcel : Parcel) : World :=
  match w.owner? call with
  | none => w
  | some i =>
    let put (w : World) (behaviour : Behaviour) : World :=
      w.withTask i { w.task i with parcel := some parcel, behaviour }
    match parcel with
    | .event _ event =>
      let (behaviour, events) := w.events.next event.id
      put { w with events } behaviour
    | .invocation invocation =>
      let (behaviour, invocations) := w.invocations.next invocation.id
      put { w with invocations } behaviour

/-- A task that asks `count` times for a slot has got an answer; `slots` is how many it got. -/
def goOn (w : World) (i count slots : Nat) : World :=
  let t := w.task i
  let asked := t.asked + 1
  let taken := t.taken + slots
  if asked < count then
    w.withTask i { t with asked, taken, stage := .asleep, inner := none, deadline := none }
  else w.finish i (.took taken)

/-- A task has got a slot to keep. -/
def keep (w : World) (call : CallId) : World :=
  match w.owner? call with
  | none => w
  | some i =>
    let t := w.task i
    match t.errand with
    | .take count => { w with kept := w.kept ++ [("", call)] }.goOn i count 1
    | _ => w.withTask i { t with stage := .holding w.now, inner := none, deadline := none }

/-- A task has got no slot. -/
def refuse (w : World) (call : CallId) (refusal : Pool.Refusal) : World :=
  match w.owner? call with
  | none => w
  | some i => match (w.task i).errand with
    | .take count => w.goOn i count 0
    | _ => w.finish i (.refused refusal)

/-- Takes in what a step of the host does. -/
def absorb (w : World) : Host.Effect → World
  | .log line => { w with log := line :: w.log }
  | .offer call source event => w.handOver call (.event source event)
  | .apply call invocation => w.handOver call (.invocation invocation)
  | .wake call => match w.owner? call with
    | some i => w.rouse i
    | none => w
  | .kept call => w.keep call
  | .refuse call refusal => w.refuse call refusal
  | .reply call reply => match w.owner? call with
    | some i => w.finish i (.reply reply)
    | none => w
  | .stop =>
    (List.range w.tasks.size).foldl
      (fun w i => if (w.task i).stage = .watching then w.rouse i else w) w

/-- Takes a step of the host. -/
def apply (w : World) (label : Host.Label) : World :=
  match Host.step w.settings w.host label with
  | none => w
  | some (host, effects) => effects.foldl absorb { w with host }

/-- Takes a step of the host for a task, which then goes on unless it is over. -/
def advance (w : World) (i : Nat) (label : Host.Label) : World :=
  let w := w.withTask i { w.task i with inner := none, deadline := none }
  let w := w.apply label
  match (w.task i).stage with
  | .over _ _ => w
  | _ => w.again i

/-- Gives back kept slots. -/
def giveBack (w : World) (slots : List (String × CallId)) : World :=
  slots.foldl
    (fun w slot => { w with kept := w.kept.erase slot }.apply (.giveBack slot.2)) w

/-- A task has to wait; it is called off when its caller has waited as long as it may. -/
def wait (w : World) (i : Nat) : World :=
  let t := w.task i
  match t.limit, t.patience with
  | some alarm, _ => if alarm.due ≤ w.now then callOff w i t else w
  | none, some patience =>
    let (alarm, w) := w.alarmAt (w.now + patience)
    let t := { t with limit := some alarm }
    let w := w.withTask i t
    if alarm.due ≤ w.now then callOff w i t else w
  | none, none => w
where
  /-- Drops what the task has at the host. -/
  callOff (w : World) (i : Nat) (t : Task) : World :=
    (match t.stage with
      | .watching => w
      | _ => w.apply (.drop t.call)).finish i .cancelled

/-- A task has to wait for at most `d`, after which `label` is the next step. -/
def waitFor (w : World) (i : Nat) (d : Duration) (label : Host.Label) : World :=
  let t := w.task i
  match t.deadline with
  | some alarm => if alarm.due ≤ w.now then w.advance i label else w.wait i
  | none =>
    let (alarm, w) := w.alarmAt (d.dueAt w.now)
    let w := w.withTask i { t with deadline := some alarm }
    if alarm.due ≤ w.now then w.advance i label else w.wait i

/-- A task sleeps until so many milliseconds from now; says whether it has slept enough. -/
def sleep (w : World) (i : Nat) (millis : Nat) : World × Bool :=
  let t := w.task i
  match t.inner with
  | some alarm => (w, decide (alarm.due ≤ w.now))
  | none =>
    let (alarm, w) := w.alarmAt (w.now + millis)
    (w.withTask i { t with inner := some alarm }, decide (alarm.due ≤ w.now))

/-- What the pipeline says to the parcel of a task, if it says anything now. -/
def verdict (w : World) (i : Nat) : Behaviour → World × Option Pipeline.Verdict
  | .take => match (w.task i).parcel with
    | some (.event source event) =>
      let (verdict, events) := w.events.put (source, event)
      ({ w with events }, verdict)
    | some (.invocation invocation) =>
      let (verdict, invocations) := w.invocations.put invocation
      ({ w with invocations }, verdict)
    | none => (w, none)
  | .fail fault => (w, some (.failed fault))
  | .stall => (w, none)
  | .delay millis next =>
    let (w, slept) := w.sleep i millis
    if slept then
      (w.withTask i { w.task i with behaviour := next, inner := none }).verdict i next
    else (w, none)

/-- A task waits for the pipeline. -/
def consult (w : World) (i : Nat) (d : Duration) (label : Pipeline.Verdict → Host.Label) : World :=
  match w.verdict i (w.task i).behaviour with
  | (w, some verdict) => w.advance i (label verdict)
  | (w, none) => w.waitFor i d (label (.failed (.timeout d)))

/-- A task starts, or goes on with its next slot. -/
def begin (w : World) (i : Nat) : World :=
  let request (work : Host.Work) : World :=
    let t := w.task i
    let call := w.calls
    { w with calls := w.calls + 1 }.withTask i { t with stage := .running, call }
      |>.advance i (.request call work)
  match (w.task i).errand with
  | .work work => request work
  | .hold _ => request .keep
  | .acquire _ => request .keep
  | .take 0 => w.finish i (.took 0)
  | .take _ => request .keep
  | .letGo name => match w.kept.find? fun slot => slot.1 = name with
    | some slot => (w.giveBack [slot]).finish i (.letGo true)
    | none => w.finish i (.letGo false)
  | .giveBack count => (w.giveBack (w.kept.take count)).finish i .done
  | .shutdown => (w.apply .shutdown).finish i .done
  | .leave =>
    let w := { w with
      events := { w.events with closed := true }
      invocations := { w.invocations with closed := true } }
    (List.range w.tasks.size).foldl
      (fun w i => match (w.task i).stage with
        | .running => w.rouse i
        | _ => w) (w.finish i .done)
  | .watch => (w.withTask i { w.task i with stage := .watching }).again i
  | .look => w.finish i (.counters w.host.dispatch.counts w.host.reaction.counts)

/-- A task whose call is in progress goes on. -/
def proceed (w : World) (i : Nat) (t : Task) : World :=
  let id := t.call
  match w.host.place id with
  | .queued => w.waitFor i w.settings.wait (.expire id)
  | .called => w.advance i (.resume id)
  | .arrived => w.advance i (.dispatch (.lookup id))
  | .found => w.advance i (.dispatch (.join id))
  | .inLine true => w.advance i (.dispatch (.proceed id))
  | .inLine false => w.wait i
  | .offering => w.consult i w.settings.dispatch.timeout fun v => .dispatch (.answer id v)
  | .applying => w.consult i w.settings.reaction.timeout fun v => .reaction (.answer id v)
  | .awaiting => w.waitFor i w.settings.reaction.timeout (.reaction (.expire id))
  | .released => w.advance i (.reaction (.resume id))
  | .aside => w

/-- A task has its turn. -/
def turn (w : World) (i : Nat) : World :=
  let t := w.task i
  match t.stage with
  | .asleep =>
    let (w, slept) := if t.asked = 0 then w.sleep i t.delay else (w, true)
    if slept then (w.withTask i { w.task i with inner := none }).begin i else w
  | .running => w.proceed i t
  | .holding since => match t.errand with
    | .acquire name =>
      let before := w.kept.filter fun slot => slot.1 = name
      { w with kept := w.kept ++ [(name, t.call)] }.giveBack before |>.finish i .acquired
    | .hold millis =>
      let (w, slept) := w.sleep i millis
      if slept then (w.apply (.giveBack t.call)).finish i (.held since) else w.wait i
    | _ => (w.apply (.giveBack t.call)).finish i (.held since)
  | .watching =>
    if w.host.stopped then w.finish i (.watched true)
    else
      let (w, slept) := w.sleep i (60 * 60 * 1000)
      if slept then w.finish i (.watched false) else w.wait i
  | .over _ _ => w

/-- The alarms that are set, with the tasks that they rouse. -/
def alarmed (w : World) : List (Alarm × Nat) :=
  (List.range w.tasks.size).flatMap fun i => (w.task i).alarms.map fun a => (a, i)

/-- Jumps to the next alarm, if one is set, and rouses the tasks whose time has come. -/
def jump (w : World) : Option World :=
  let alarms := w.alarmed
  match (alarms.map fun a => a.1.due).min? with
  | none => none
  | some time =>
    let now := max w.now time
    let due := (alarms.filter fun a => a.1.due ≤ now).mergeSort fun a b =>
      a.1.due < b.1.due || (a.1.due == b.1.due && a.1.order ≤ b.1.order)
    some (due.foldl (fun w a => w.rouse a.2) { w with now })

/-- Lets tasks go on, in so many turns and jumps at most. -/
def runFor : Nat → World → World
  | 0, w => w
  | fuel + 1, w => match w.ready with
    | i :: ready => runFor fuel ({ w with ready }.turn i)
    | [] => match w.jump with
      | some w => runFor fuel w
      | none => w

/-- A number of turns that is more than the tasks need: each event, slot and sleep takes a few, and
no task rouses another more often than that. -/
def turns (w : World) : Nat :=
  let scripted (script : Dict (List Behaviour)) : Nat :=
    script.entries.foldl (fun n p => p.2.foldl (fun n b => n + b.length) n) 0
  100 * (w.tasks.size + 1) *
    (1 + w.tasks.foldl (fun n t => n + t.errand.length) 0 + scripted w.events.script +
      scripted w.invocations.script)

/-- Starts tasks together and lets them go on to their ends; gives what each came back with, and
when. -/
def run (w : World) (tasks : List Task) : World × List (Option (Outcome × Nat)) :=
  let w := { w with tasks := tasks.toArray, ready := List.range tasks.length }
  let w := w.runFor w.turns
  (w, w.tasks.toList.map fun t => match t.stage with
    | .over outcome time => some (outcome, time)
    | _ => none)

/-- Empties the pipeline's channels; gives what it took. -/
def drain (w : World) : World × List (String × Event) × List Invocation :=
  let (forwarded, events) := w.events.drain
  let (applied, invocations) := w.invocations.drain
  ({ w with events, invocations }, forwarded, applied)

end ChangeRelay.Simulation.World
