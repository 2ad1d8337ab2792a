import ChangeRelay.Host.Step
import ChangeRelay.Simulation.Outlet

/-!
# A host on a clock that jumps

Callers of a host as tasks on a clock of its own, in whole milliseconds. Nothing takes time but
waiting. Tasks that can go on do so in turn; when none can, the clock jumps to the next alarm.
-/

namespace ChangeRelay.Simulation

/-- What a caller does. -/
inductive Errand
  /-- It sends a request and waits for the reply. -/
  | work (work : Host.Work)
  /-- It takes a slot and keeps it for so many milliseconds. -/
  | hold (millis : Nat)
  /-- It takes a slot to keep under a name, and gives back the one kept under it before. -/
  | acquire (name : String)
  /-- It gives back the slot kept under a name. -/
  | letGo (name : String)
  /-- It asks for slots to keep, so many times one after the other. -/
  | take (count : Nat)
  /-- It gives back so many of the slots kept without a name. -/
  | giveBack (count : Nat)
  | shutdown
  /-- It leaves the pipeline's other end. -/
  | leave
  /-- It waits until the host is to stop, for an hour at most. -/
  | watch
  /-- It looks at the counters. -/
  | look
deriving DecidableEq, Repr

/-- The number of things done one after the other, roughly. -/
def Errand.length : Errand → Nat
  | .work (.dispatch request) => request.events.length + 1
  | .take count => count + 1
  | .giveBack count => count + 1
  | _ => 1

/-- What a caller comes back with. -/
inductive Outcome
  | reply (reply : Host.Reply)
  | refused (refusal : Pool.Refusal)
  /-- It held a slot, from this time on. -/
  | held (since : Nat)
  | acquired
  /-- Whether there was a slot to give back. -/
  | letGo (found : Bool)
  /-- How many slots it took. -/
  | took (count : Nat)
  /-- Whether the host was to stop. -/
  | watched (stopped : Bool)
  | counters (dispatch : Dispatch.Counts) (reaction : Reaction.Counts)
  | done
  /-- It was called off. -/
  | cancelled
deriving DecidableEq, Repr

/-- A time at which a task looks again; of several at one time the earliest set comes first. -/
structure Alarm where
  due : Nat
  order : Nat
deriving DecidableEq, Repr

/-- What a task has in the pipeline. -/
inductive Parcel
  | event (source : String) (event : Event)
  | invocation (invocation : Invocation)
deriving DecidableEq, Repr

inductive Stage
  /-- It has not started. -/
  | asleep
  /-- Its call is in progress. -/
  | running
  /-- It holds a slot. -/
  | holding (since : Nat)
  /-- It waits for the host to stop. -/
  | watching
  | over (outcome : Outcome) (time : Nat)
deriving DecidableEq, Repr

structure Task where
  errand : Errand
  /-- How long it sleeps before it starts. -/
  delay : Nat
  /-- How long after its start it is called off. -/
  patience : Option Nat
  stage : Stage
  /-- The call that it has at the host. -/
  call : CallId
  /-- How many slots to keep it has asked for and got an answer. -/
  asked : Nat
  /-- How many of them it has taken. -/
  taken : Nat
  parcel : Option Parcel
  /-- What the pipeline is about to do with the parcel. -/
  behaviour : Behaviour
  /-- The end of a sleep. -/
  inner : Option Alarm
  /-- The end of the host's patience. -/
  deadline : Option Alarm
  /-- The end of the caller's patience. -/
  limit : Option Alarm
deriving Repr

namespace Task

def ofErrand (errand : Errand) (delay : Nat) (patience : Option Nat) : Task :=
  { errand, delay, patience, stage := .asleep, call := 0, asked := 0, taken := 0
    parcel := none, behaviour := .take, inner := none, deadline := none, limit := none }

instance : Inhabited Task := ⟨ofErrand .look 0 none⟩

/-- The alarms of a task that is not over. -/
def alarms (t : Task) : List Alarm :=
  match t.stage with
  | .over _ _ => []
  | _ => t.inner.toList ++ t.deadline.toList ++ t.limit.toList

/-- Whether a call is the one that the task has at the host. -/
def has (t : Task) (call : CallId) : Bool :=
  match t.stage with
  | .running => t.call = call
  | .holding _ => t.call = call
  | _ => false

end Task

structure World where
  settings : Host.Settings
  host : Host.State
  events : Outlet (String × Event)
  invocations : Outlet Invocation
  /-- The time in milliseconds. -/
  now : Nat
  /-- The number of alarms set so far. -/
  alarms : Nat
  /-- The number of calls made so far. -/
  calls : Nat
  /-- Slots that are kept, with their names. -/
  kept : List (String × CallId)
  /-- The lines logged so far, the latest first. -/
  log : List Log.Line
  tasks : Array Task
  /-- The tasks that can go on, in turn. -/
  ready : List Nat

namespace World

/-- Before anything happens. -/
def start (s : Host.Settings) (events : Outlet (String × Event)) (invocations : Outlet Invocation) :
    World :=
  { settings := s, host := .start s, events, invocations, now := 0, alarms := 0, calls := 0
    kept := [], log := [], tasks := #[], ready := [] }

/-- The lines logged so far, in order. -/
def lines (w : World) : List Log.Line := w.log.reverse

def task (w : World) (i : Nat) : Task := w.tasks.getD i default

def withTask (w : World) (i : Nat) (t : Task) : World :=
  { w with tasks := w.tasks.setIfInBounds i t }

/-- Ends a task. -/
def finish (w : World) (i : Nat) (outcome : Outcome) : World :=
  w.withTask i { w.task i with stage := .over outcome w.now }

/-- The task that has a call at the host. -/
def owner? (w : World) (call : CallId) : Option Nat := w.tasks.findIdx? fun t => t.has call

/-- Lets a task go on when its turn comes. -/
def rouse (w : World) (i : Nat) : World :=
  if i ∈ w.ready then w else { w with ready := w.ready ++ [i] }

/-- Lets a task go on at once. -/
def again (w : World) (i : Nat) : World := { w with ready := i :: w.ready }

/-- Sets an alarm. -/
def alarmAt (w : World) (due : Nat) : Alarm × World :=
  (⟨due, w.alarms⟩, { w with alarms := w.alarms + 1 })

end World

end ChangeRelay.Simulation
