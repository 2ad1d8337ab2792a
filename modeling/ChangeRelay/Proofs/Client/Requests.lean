import ChangeRelay.Client.Adaptive
import ChangeRelay.Proofs.Client.Attempts
import Mathlib.Algebra.Order.Ring.Nat

/-!
# Batches that were sent, and the report of them

A batch is sent once, with as many attempts as its failures and the policy ask for; a server that
remembers what reached it sees these attempts in a row. `Request` is a batch that was sent, with
what came of it, and `Report.Totals` says that a report counts such requests.

* **`sends_request`**: to send a batch is a request, and the server sees its attempts.
* **`Report.Totals.add`**: a report of requests counts the next one in.
* **`Report.Totals.balances`**: it accounts for every batch and every event.
-/

namespace ChangeRelay.Client

variable {σ : Type}

/-! ## What a server sees -/

/-- A batch that reached a server, with the answer. -/
abbrev Seen := Wire.Batch × Except Failure DispatchReply

/-- A server that remembers the batches that reached it. -/
def Server.watched (server : Server σ) : Server (σ × List Seen) where
  connect s := ((server.connect s.1).1, (server.connect s.1).2, s.2)
  single e s := ((server.single e s.1).1, (server.single e s.1).2, s.2)
  batch b s :=
    ((server.batch b s.1).1, (server.batch b s.1).2, s.2 ++ [(b, (server.batch b s.1).1)])
  invocation i headers s :=
    ((server.invocation i headers s.1).1, (server.invocation i headers s.1).2, s.2)

theorem Server.watched_sees (server : Server σ) (b : Wire.Batch) (s : σ × List Seen) :
    (server.watched.batch b s).2.2 = s.2 ++ [(b, (server.watched.batch b s).1)] := rfl

/-- What a batch of `size` events may be answered with: a failure, or a reply that accepts no more
events than these and is a success when it accepts all of them. -/
def Fits (size : Nat) : Except Failure DispatchReply → Prop
  | .error _ => True
  | .ok reply => reply.processed.toNat ≤ size ∧
      (reply.success = true ↔ reply.processed.toNat = size)

/-- A server that answers batches the way a dispatcher does, or fails. -/
def Server.Honest (server : Server σ) : Prop :=
  ∀ b s, Fits b.events.length (server.batch b s).1

/-! ## Requests -/

/-- A batch that was sent, and what came of it. -/
structure Request where
  events : List Event
  /-- The failures after which it was attempted again. -/
  failures : List Failure
  /-- The answer to the last attempt. -/
  outcome : Except Failure DispatchReply

namespace Request

variable {c : Settings} {r : Request}

/-- The batch of a request carries the source and the metadata of the client. -/
def batch (c : Settings) (r : Request) : Batch := ⟨c.source, c.metadata, r.events⟩

/-- What a server sees of a request. -/
def seen (c : Settings) (r : Request) : List Seen :=
  r.failures.map (fun f => ((r.batch c).wire, .error f)) ++ [((r.batch c).wire, r.outcome)]

def isAnswered (r : Request) : Bool := r.outcome.isOk

/-- The number of events that the server accepted. -/
def accepted (r : Request) : Nat :=
  match r.outcome with
  | .ok reply => reply.processed.toNat
  | .error _ => 0

/-- The number of events in a batch with a reply that the server did not accept. -/
def refused (r : Request) : Nat :=
  match r.outcome with
  | .ok reply => r.events.length - reply.processed.toNat
  | .error _ => 0

/-- The number of events in a batch that failed. -/
def lost (r : Request) : Nat :=
  match r.outcome with
  | .ok _ => 0
  | .error _ => r.events.length

/-- A request as a client makes it. -/
structure Proper (c : Settings) (r : Request) : Prop where
  nonempty : r.events ≠ []
  few : r.failures.length ≤ c.connection.retry.maxRetries
  passing : ∀ f ∈ r.failures, f.isRetryable = true
  fits : Fits r.events.length r.outcome

/-- An event is accepted, refused or lost. -/
theorem Proper.total (proper : r.Proper c) : r.accepted + r.refused + r.lost = r.events.length := by
  have fits := proper.fits
  unfold accepted refused lost
  cases answer : r.outcome with
  | error failure => simp
  | ok reply =>
    rw [answer] at fits
    have most : reply.processed.toNat ≤ r.events.length := fits.1
    simp only
    omega

end Request

/-- **To send a batch** is a request, and the server sees its attempts. -/
theorem sends_request (c : Settings) {server : Server σ} (honest : server.Honest)
    {events : List Event} (nonempty : events ≠ []) (s : σ × List Seen) :
    ∃ r : Request, r.Proper c ∧ r.events = events ∧
      (sendBatch c server.watched ⟨c.source, c.metadata, events⟩ s).1 = r.outcome ∧
      (sendBatch c server.watched ⟨c.source, c.metadata, events⟩ s).2.2 = s.2 ++ r.seen c := by
  let b : Batch := ⟨c.source, c.metadata, events⟩
  let a := c.connection.retry.run (server.watched.batch b.wire) s
  obtain ⟨failures, settled, seen⟩ :=
    RetryPolicy.record_of_run (server.watched.batch b.wire) _ (server.watched_sees b.wire)
      c.connection.retry s
  have fits : Fits events.length a.outcome := by
    have size : b.wire.events.length = events.length := List.length_map _
    rw [(RetryPolicy.run_spec c.connection.retry _ s).outcome, ← size]
    exact honest _ _
  refine ⟨⟨events, failures, a.outcome⟩, ⟨nonempty, settled.few, settled.passing, fits⟩, rfl, rfl, ?_⟩
  rw [Request.seen, ← List.append_assoc]
  exact seen

/-! ## Reports -/

namespace Report

/-- A report counts these requests, in words of 64 bits. -/
structure Totals (t : Report) (rs : List Request) : Prop where
  sent : t.sent = .ofNat (rs.countP Request.isAnswered)
  failed : t.failed = .ofNat (rs.countP fun r => ¬r.isAnswered)
  processed : t.processed = .ofNat (rs.map Request.accepted).sum
  rejected : t.rejected = .ofNat (rs.map Request.refused).sum

/-- A report of `rs` accounts for all of its batches, and for `size` events. -/
structure Balances (t : Report) (rs : List Request) (size : Nat) : Prop where
  batches : t.sent + t.failed = .ofNat rs.length
  events : t.processed + t.rejected + .ofNat (rs.map Request.lost).sum = .ofNat size
  /-- Words count without a carry as long as there are fewer events than a word can count. -/
  exact : size < UInt64.size → t.sent.toNat + t.failed.toNat = rs.length ∧
    t.processed.toNat + t.rejected.toNat + (rs.map Request.lost).sum = size

variable {t : Report} {rs : List Request} {c : Settings}

theorem totals_nil : Report.empty.Totals [] := ⟨rfl, rfl, rfl, rfl⟩

/-- **The next request is counted in.** -/
theorem Totals.add (totals : t.Totals rs) {r : Request} (proper : r.Proper c) :
    (t.add r.events.length r.outcome).Totals (rs ++ [r]) := by
  have fits := proper.fits
  cases answer : r.outcome with
  | error failure =>
    constructor <;>
      simp [Report.add, Request.isAnswered, Request.accepted, Request.refused, Except.isOk,
        Except.toBool, answer, totals.sent, totals.failed, totals.processed, totals.rejected]
  | ok reply =>
    rw [answer] at fits
    have refused : (if reply.success then 0 else .ofNat (r.events.length - reply.processed.toNat)) =
        UInt64.ofNat (r.events.length - reply.processed.toNat) := by
      by_cases success : reply.success = true
      · rw [if_pos success, fits.2.mp success, Nat.sub_self]
        rfl
      · exact if_neg success
    have counted : t.add r.events.length (.ok reply) =
        ⟨t.sent + 1, t.failed, t.processed + reply.processed,
          t.rejected + .ofNat (r.events.length - reply.processed.toNat)⟩ := by
      rw [← refused]
      rfl
    rw [counted]
    constructor <;>
      simp [Request.isAnswered, Request.accepted, Request.refused, Except.isOk, Except.toBool,
        answer, totals.sent, totals.failed, totals.processed, totals.rejected]

theorem sum_total (proper : ∀ r ∈ rs, r.Proper c) :
    (rs.map Request.accepted).sum + (rs.map Request.refused).sum + (rs.map Request.lost).sum =
      (rs.flatMap Request.events).length := by
  induction rs with
  | nil => rfl
  | cons r rs ih =>
    obtain ⟨head, tail⟩ := List.forall_mem_cons.mp proper
    have rest := ih tail
    have first := head.total
    simp only [List.map_cons, List.sum_cons, List.flatMap_cons, List.length_append]
    omega

/-- There are no more batches than events. -/
theorem length_le_events (proper : ∀ r ∈ rs, r.Proper c) :
    rs.length ≤ (rs.flatMap Request.events).length := by
  induction rs with
  | nil => exact Nat.le_refl _
  | cons r rs ih =>
    obtain ⟨head, tail⟩ := List.forall_mem_cons.mp proper
    have rest := ih tail
    have first := List.length_pos_iff.mpr head.nonempty
    rw [List.flatMap_cons, List.length_append, List.length_cons]
    omega

/-- **A report accounts** for every batch and every event of the requests that it counts. -/
theorem Totals.balances (totals : t.Totals rs) (proper : ∀ r ∈ rs, r.Proper c) :
    t.Balances rs (rs.flatMap Request.events).length := by
  have total := sum_total proper
  have few := length_le_events proper
  have counts : rs.countP Request.isAnswered + rs.countP (fun r => ¬r.isAnswered) = rs.length :=
    (List.length_eq_countP_add_countP _).symm
  constructor
  · rw [totals.sent, totals.failed, ← UInt64.ofNat_add, counts]
  · rw [totals.processed, totals.rejected, ← UInt64.ofNat_add, ← UInt64.ofNat_add, total]
  · intro small
    rw [totals.sent, totals.failed, totals.processed, totals.rejected,
      UInt64.toNat_ofNat_of_lt' (by omega), UInt64.toNat_ofNat_of_lt' (by omega),
      UInt64.toNat_ofNat_of_lt' (by omega), UInt64.toNat_ofNat_of_lt' (by omega)]
    exact ⟨counts, total⟩

end Report

end ChangeRelay.Client
