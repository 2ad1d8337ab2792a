import ChangeRelay.Dispatch.Settings
import ChangeRelay.Log
import ChangeRelay.Pipeline
import ChangeRelay.Reply
import ChangeRelay.Wire.Checked

/-!
# A walk along events

The events of one call are gone through in order. Each is checked, set against the last accepted
sequence number of its stream, and then offered to the pipeline; it is accepted if all three go
well and rejected otherwise. Under the policy `abort` the walk ends at the first rejection.

Model of the loop of `run` in `DispatcherCore`, and of `forward_one` around its one wait.

* `Walk.resume` goes on from an event to the next one that has to be offered, or to the end.
* `Walk.settle` takes the pipeline's verdict on the event on offer.
* `Tally.reply` is what the caller is told at the end.
-/

namespace ChangeRelay.Dispatch

/-- What became of the events of a call so far. -/
structure Tally where
  /-- The number of events in the call. -/
  total : Nat
  processed : Nat
  rejected : Nat
  /-- Why the first rejected event was rejected. -/
  reason? : Option String
deriving DecidableEq, Repr, Inhabited

namespace Tally

/-- Nothing decided yet. -/
def start (total : Nat) : Tally := ⟨total, 0, 0, none⟩

/-- The number of events decided, which is the place of the next one. -/
def decided (t : Tally) : Nat := t.processed + t.rejected

/-- The number of events not decided. -/
def remaining (t : Tally) : Nat := t.total - t.processed - t.rejected

def accept (t : Tally) : Tally := { t with processed := t.processed + 1 }

/-- One more rejection; the first reason is kept. -/
def reject (t : Tally) (reason : String) : Tally :=
  { t with rejected := t.rejected + 1, reason? := some (t.reason?.getD reason) }

/-- What the caller is told. -/
def reply (t : Tally) : DispatchReply :=
  let processed := "processed " ++ decimal t.processed ++ " of " ++ decimal t.total ++ " events"
  match t.reason? with
  | none => ⟨true, processed, UInt64.ofNat t.processed⟩
  | some reason =>
    let left := if 0 < t.remaining then ", " ++ decimal t.remaining ++ " not attempted" else ""
    ⟨false, processed ++ "; " ++ decimal t.rejected ++ " rejected" ++ left ++
      " (first: " ++ reason ++ ")", UInt64.ofNat t.processed⟩

end Tally

/-- An event that was rejected. -/
structure Rejection where
  sequence : UInt64
  /-- The event's place in its call. -/
  index : Nat
  reason : String
deriving DecidableEq, Repr, Inhabited

/-- How a rejection is logged. -/
def Rejection.line (source : String) (r : Rejection) : Log.Line :=
  ⟨.warn, "event rejected",
    [("source_id", source), ("seq", decimal r.sequence.toNat), ("index", decimal r.index),
      ("reason", r.reason)]⟩

/-- What can be said about an event before it is offered: it is well formed, and its number is not
below the last accepted one of its stream. -/
def examine (source : String) (last? : Option UInt64) (e : Wire.Event) : Except Invalid Event :=
  match e.check with
  | .error reason => .error reason
  | .ok event => match last? with
    | none => .ok event
    | some last =>
      if event.sequence < last then .error (.sequenceRegression source last event.sequence)
      else .ok event

/-- How far a call has come. -/
structure Walk where
  source : String
  /-- The events not decided yet. -/
  todo : List Wire.Event
  tally : Tally
deriving DecidableEq, Repr, Inhabited

/-- Where a walk stops. -/
inductive Halt
  /-- An event has to be offered to the pipeline. -/
  | offer (event : Event)
  /-- Nothing is left to attempt. -/
  | done
deriving DecidableEq, Repr, Inhabited

/-- A walk that has stopped, with the rejections on the way. -/
structure Halted where
  walk : Walk
  rejections : List Rejection
  halt : Halt
deriving DecidableEq, Repr, Inhabited

namespace Walk

/-- Before the first event. -/
def start (source : String) (events : List Wire.Event) : Walk :=
  ⟨source, events, .start events.length⟩

/-- Goes on to the next event to offer, or to the end. -/
def advance (s : Settings) (source : String) (last? : Option UInt64) :
    List Wire.Event → Tally → Halted
  | [], t => ⟨⟨source, [], t⟩, [], .done⟩
  | e :: es, t => match examine source last? e with
    | .ok event => ⟨⟨source, e :: es, t⟩, [], .offer event⟩
    | .error cause =>
      let rejection : Rejection := ⟨e.sequence, t.decided, cause.message⟩
      match s.failurePolicy with
      | .abort => ⟨⟨source, es, t.reject rejection.reason⟩, [rejection], .done⟩
      | .proceed =>
        let h := advance s source last? es (t.reject rejection.reason)
        { h with rejections := rejection :: h.rejections }

/-- Goes on from where the walk stands. -/
def resume (s : Settings) (last? : Option UInt64) (w : Walk) : Halted :=
  advance s w.source last? w.todo w.tally

/-- Takes the verdict on the event on offer and goes on; the number of an accepted event is the
stream's last one from then on. -/
def settle (s : Settings) (last? : Option UInt64) (event : Event) (w : Walk) :
    Pipeline.Verdict → Option UInt64 × Halted
  | .taken =>
    (some event.sequence, advance s w.source (some event.sequence) w.todo.tail w.tally.accept)
  | .failed fault =>
    let rejection : Rejection := ⟨event.sequence, w.tally.decided, fault.message⟩
    let tally := w.tally.reject rejection.reason
    (last?, match s.failurePolicy with
      | .abort => ⟨⟨w.source, w.todo.tail, tally⟩, [rejection], .done⟩
      | .proceed =>
        let h := advance s w.source last? w.todo.tail tally
        { h with rejections := rejection :: h.rejections })

end Walk

end ChangeRelay.Dispatch
