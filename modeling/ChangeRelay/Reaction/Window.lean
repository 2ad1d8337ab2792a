import ChangeRelay.CallId
import ChangeRelay.Collections.Table
import ChangeRelay.Reply

/-!
# The window of known invocations

An invocation may be delivered more than once. The window knows the ids that are being applied and
the ones that were applied last, with the reply each of them got. When more applied ids are known
than the window may remember, the ones applied longest ago are forgotten; an id that is being
applied is never forgotten.

Model of `DedupWindow`, with `begin`, `complete` and `abandon`.
-/

namespace ChangeRelay.Reaction

/-- What is known of an id. -/
inductive Seen
  /-- A delivery of it is being applied. -/
  | inFlight (owner : CallId)
  /-- It was applied, with this reply. -/
  | done (reply : InvocationReply)
deriving DecidableEq, Repr

structure Window where
  entries : Table String Seen
  /-- The applied ids that are remembered, the one applied longest ago first. -/
  completed : List String

namespace Window

/-- Nothing known. -/
def empty : Window := ⟨.empty, []⟩

instance : Inhabited Window := ⟨empty⟩

/-- What is known of an id. -/
def seen? (w : Window) (id : String) : Option Seen := w.entries.get? id

/-- Marks an id as being applied. -/
def begin (w : Window) (id : String) (owner : CallId) : Window :=
  { w with entries := w.entries.set id (.inFlight owner) }

/-- Remembers an applied id, and forgets the oldest ones past the capacity. -/
def complete (w : Window) (capacity : Nat) (id : String) (reply : InvocationReply) : Window :=
  let all := w.completed ++ [id]
  let excess := all.length - capacity
  { entries := (all.take excess).foldl Table.erase (w.entries.set id (.done reply))
    completed := all.drop excess }

/-- Forgets an id that is being applied. -/
def abandon (w : Window) (id : String) : Window :=
  match w.entries.get? id with
  | some (.inFlight _) => { w with entries := w.entries.erase id }
  | _ => w

/-- How many applied ids are remembered. -/
def size (w : Window) : Nat := w.completed.length

end Window

end ChangeRelay.Reaction
