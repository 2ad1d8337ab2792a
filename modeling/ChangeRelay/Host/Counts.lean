import ChangeRelay.Host.State
import ChangeRelay.Json.Basic

/-!
# Counters in JSON

The running totals of a host, as it shows them.

These are the `snapshot`s of `DispatchMetrics` and `ReactionMetrics`.
-/

namespace ChangeRelay

def Dispatch.Counts.json (c : Dispatch.Counts) : Json :=
  let c := c.shown
  .record [("batches_received", .int c.batches), ("events_received", .int c.received),
    ("events_processed", .int c.processed), ("events_rejected", .int c.rejected)]

def Reaction.Counts.json (c : Reaction.Counts) : Json :=
  let c := c.shown
  .record [("invocations_received", .int c.received), ("invocations_applied", .int c.applied),
    ("duplicates", .int c.duplicates), ("rejected", .int c.rejected),
    ("records_added", .int c.added), ("records_updated", .int c.updated),
    ("records_deleted", .int c.deleted)]

end ChangeRelay
