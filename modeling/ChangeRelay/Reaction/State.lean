import ChangeRelay.Reaction.Settings
import ChangeRelay.Reaction.Window
import ChangeRelay.Result.Payload

/-!
# The state of a reaction handler

Model of `ReactionHandlerCore` and `ReactionMetrics`.
-/

namespace ChangeRelay.Reaction

/-- Where a delivery stands. -/
inductive Phase
  /-- The pipeline has its invocation. -/
  | applying (invocation : Invocation)
  /-- It waits for an earlier delivery of the same id. -/
  | awaiting (owner : CallId)
  /-- The delivery it waited for has ended, with this reply unless it was dropped. -/
  | released (reply? : Option InvocationReply)
deriving DecidableEq, Repr

/-- A delivery in progress. -/
structure Delivery where
  /-- The id of its invocation. -/
  id : String
  phase : Phase
deriving DecidableEq, Repr

/-- Running totals. They are kept by counters of 64 bits, see `Counts.shown`. -/
structure Counts where
  received : Nat
  applied : Nat
  duplicates : Nat
  rejected : Nat
  /-- Records of applied invocations. -/
  added : Nat
  updated : Nat
  deleted : Nat
deriving DecidableEq, Repr, Inhabited

namespace Counts

def zero : Counts := ⟨0, 0, 0, 0, 0, 0, 0⟩

def receive (c : Counts) : Counts := { c with received := c.received + 1 }

def duplicate (c : Counts) : Counts := { c with duplicates := c.duplicates + 1 }

def reject (c : Counts) : Counts := { c with rejected := c.rejected + 1 }

/-- One more applied invocation, with its records. -/
def apply (c : Counts) (p : Payload) : Counts :=
  { c with
    applied := c.applied + 1
    added := c.added + p.added.length
    updated := c.updated + p.updated.length
    deleted := c.deleted + p.deleted.length }

/-- The totals as the counters show them, which drop the carry. -/
def shown (c : Counts) : Counts :=
  ⟨c.received % UInt64.size, c.applied % UInt64.size, c.duplicates % UInt64.size,
    c.rejected % UInt64.size, c.added % UInt64.size, c.updated % UInt64.size,
    c.deleted % UInt64.size⟩

end Counts

structure State where
  window : Window
  deliveries : Table CallId Delivery
  counts : Counts
  /-- Whether as many invocations were applied as were to be. -/
  stopped : Bool
deriving Inhabited

/-- Before the first delivery. -/
def State.start : State := ⟨.empty, .empty, .zero, false⟩

end ChangeRelay.Reaction
