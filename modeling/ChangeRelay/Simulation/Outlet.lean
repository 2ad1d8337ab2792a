import ChangeRelay.Collections.Dict
import ChangeRelay.Pipeline

/-!
# A scripted pipeline

A pipeline for trying a host out: what it does with each item is written down beforehand, by the
item's id, and what it takes goes into a channel with room for so many items.

The channel is that of a `ChannelSink` or a `ChannelReactionSink`.
-/

namespace ChangeRelay.Simulation

/-- What the pipeline does with an item. -/
inductive Behaviour
  /-- It puts the item into its channel. -/
  | take
  | fail (fault : Pipeline.Fault)
  /-- It says nothing, ever. -/
  | stall
  /-- It does something after so many milliseconds. -/
  | delay (millis : Nat) (next : Behaviour)
deriving DecidableEq, Repr, Inhabited

/-- The number of things done. -/
def Behaviour.length : Behaviour → Nat
  | .delay _ next => next.length + 1
  | _ => 1

/-- A scripted pipeline and what it took. -/
structure Outlet (α : Type) where
  /-- What it does with the items of an id, one after the other; in the end it takes every item. -/
  script : Dict (List Behaviour)
  /-- How many items the channel holds. -/
  capacity : Nat
  items : Array α
  /-- Whether nobody is at the channel's other end. -/
  closed : Bool
deriving Repr

namespace Outlet

variable {α : Type}

def ofScript (script : Dict (List Behaviour)) (capacity : Nat) : Outlet α :=
  ⟨script, capacity, #[], false⟩

instance : Inhabited (Outlet α) := ⟨ofScript .empty 0⟩

/-- What it does with the next item of an id. -/
def next (o : Outlet α) (id : String) : Behaviour × Outlet α :=
  match o.script.get? id with
  | some (b :: rest) => (b, { o with script := o.script.insert id rest })
  | _ => (.take, o)

/-- Puts an item into the channel: nothing is said while the channel is full. -/
def put (o : Outlet α) (item : α) : Option Pipeline.Verdict × Outlet α :=
  if o.closed then (some (.failed .closed), o)
  else if o.items.size < o.capacity then (some .taken, { o with items := o.items.push item })
  else (none, o)

/-- Empties the channel. -/
def drain (o : Outlet α) : List α × Outlet α := (o.items.toList, { o with items := #[] })

end Outlet

end ChangeRelay.Simulation
