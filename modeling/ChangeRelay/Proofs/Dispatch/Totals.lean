import ChangeRelay.Proofs.Dispatch.Ending
import ChangeRelay.Proofs.Dispatch.History
import Mathlib.Algebra.Order.Ring.Nat

/-!
# The totals of a dispatcher

A batch or a group is counted when it comes in, and its events are counted as received then. An
event is counted as processed when the pipeline takes it. It is counted as rejected when this is
reported, or with all events of a call that is turned away.

* `step_counts`: what a step counts is seen from its label and its effects.
* **`counts_of_run`**: the totals are what the moments of a history count.
-/

namespace ChangeRelay.Dispatch

/-- A group or a batch. -/
def Request.isBatch : Request → Bool
  | .single _ => false
  | .group _ => true
  | .batch _ => true

/-- A step answers its call. -/
def answers (es : List Effect) : Bool := !(es.filterMap Effect.told?).isEmpty

/-- It is reported that an event is rejected. -/
def Effect.isReport : Effect → Bool
  | .log line => line.message = "event rejected"
  | _ => false

/-- How many events a call has that is answered before it joins a line. -/
def turnedAway (m : Moment State Label Effect) : Nat :=
  if answers m.effects then
    match m.label with
    | .arrive _ r => r.events.length
    | .lookup id => ((m.before.calls.get? id).map fun call => call.walk.tally.total).getD 0
    | _ => 0
  else 0

/-- How many events a step rejects: all of a call that is turned away, or one for each report. -/
def rejects (m : Moment State Label Effect) : Nat :=
  turnedAway m + m.effects.countP Effect.isReport

variable {s : Settings} {st st' : State} {l : Label} {left : Left} {es : List Effect}
variable {h : History} {m : Moment State Label Effect}

theorem answers_iff : answers es = true ↔ es.filterMap Effect.told? ≠ [] := by
  simp [answers]

/-! ## What a step rejects -/

/-- A step that does not answer its call rejects what it reports. -/
theorem rejects_of_quiet (quiet : m.effects.filterMap Effect.told? = []) :
    rejects m = m.effects.countP Effect.isReport := by
  rw [rejects, turnedAway, answers, quiet]
  exact Nat.zero_add _

theorem countP_wakes (line : List CallId) (id : CallId) :
    (wakes line id).countP Effect.isReport = 0 := by
  unfold wakes
  split
  · simp [List.countP_map, Effect.isReport, Function.comp_def]
  · rfl

/-- A call at work reports every event that it rejects. -/
theorem countP_effects (w : Halted) (id : CallId) (line : List CallId) :
    (w.effects id line).countP Effect.isReport = w.rejections.length := by
  have reports : (w.rejections.map fun r => Effect.log (r.line w.walk.source)).countP
      Effect.isReport = w.rejections.length := by
    rw [List.countP_map]
    exact List.countP_eq_length.mpr fun _ _ => rfl
  unfold Halted.effects
  rw [List.countP_append, reports]
  cases w.halt with
  | offer event => rfl
  | done =>
    rw [List.countP_append, countP_wakes]
    rfl

/-- What the call that takes a step rejects at it. -/
theorem Works.rejects {id : CallId} {call : Call} {last? : Option UInt64} {w : Halted}
    (works : Works s st id call l last? w) (n : Nat) (line : List CallId) :
    rejects ⟨n, l, st, w.effects id line⟩ = w.rejections.length := by
  have joined : turnedAway ⟨n, l, st, w.effects id line⟩ = 0 := by
    unfold turnedAway
    cases works <;> exact ite_self 0
  rw [Dispatch.rejects, joined, Nat.zero_add]
  exact countP_effects w id line

theorem rejects_empty {id : CallId} {r : Request} (none : r.events = []) (n : Nat) :
    rejects ⟨n, .arrive id r, st, emptyLines r ++ [.reply id emptyReply]⟩ = 0 := by
  have reports : (emptyLines r ++ [Effect.reply id emptyReply]).countP Effect.isReport = 0 := by
    cases r <;> rfl
  rw [rejects, turnedAway, reports]
  simp [none]

theorem rejects_sourceless {id : CallId} {r : Request} {level : Log.Level} {message : String}
    {fields : List (String × String)} {reply : DispatchReply} (other : message ≠ "event rejected")
    (n : Nat) : rejects ⟨n, .arrive id r, st, [.log ⟨level, message, fields⟩, .reply id reply]⟩ =
      r.events.length := by
  simp [rejects, turnedAway, answers, Effect.told?, Effect.isReport, other]

theorem rejects_arrive {id : CallId} {r : Request} (n : Nat) :
    rejects ⟨n, .arrive id r, st, arrivalLines r⟩ = 0 := by
  rw [rejects_of_quiet (told_arrivalLines r)]
  cases r <;> rfl

theorem rejects_refuse {id : CallId} {call : Call} {level : Log.Level} {message : String}
    {fields : List (String × String)} {reply : DispatchReply}
    (at_ : st.calls.get? id = some call) (other : message ≠ "event rejected") (n : Nat) :
    rejects ⟨n, .lookup id, st, [.log ⟨level, message, fields⟩, .reply id reply]⟩ =
      call.walk.tally.total := by
  simp [rejects, turnedAway, answers, Effect.told?, Effect.isReport, other, at_]

theorem rejects_silent (n : Nat) : rejects ⟨n, l, st, []⟩ = 0 := rejects_of_quiet rfl

theorem rejects_drop {id : CallId} (n : Nat) (line : List CallId) :
    rejects ⟨n, .drop id, st, wakes line id⟩ = 0 := by
  rw [rejects_of_quiet (told_wakes line id)]
  exact countP_wakes line id

/-! ## The totals -/

/-- The totals behind a moment. -/
def Counts.next (c : Counts) (m : Moment State Label Effect) : Counts where
  batches := c.batches + if m.label.request?.any Request.isBatch then 1 else 0
  received := c.received + (m.label.request?.map fun r => r.events.length).getD 0
  processed := c.processed + (taken? m).toList.length
  rejected := c.rejected + rejects m

/-- The totals behind a moment at which no call comes in and no event is taken. -/
theorem Counts.next_old (c : Counts) (old : m.label.request? = none) (none : taken? m = none) :
    c.next m = c.reject (rejects m) := by
  rw [Counts.next, old, none]
  rfl

/-- A call comes in. -/
theorem Counts.next_arrive (c : Counts) {id : CallId} {r : Request} (hl : m.label = .arrive id r) :
    c.next m = (c.receive r).reject (rejects m) := by
  obtain ⟨n, l, st, es⟩ := m
  obtain rfl : l = .arrive id r := hl
  cases r <;> rfl

/-- **What a step counts.** -/
theorem step_counts (hs : step s st l = some (st', es)) (n : Nat) :
    st'.counts = st.counts.next ⟨n, l, st, es⟩ := by
  obtain ⟨left, move, -⟩ := step_move hs
  cases move with
  | @empty id r _ none =>
    rw [arrive_counts hs, Counts.next_arrive _ rfl, rejects_empty none, none]
    exact congrArg _ (ite_self 0)
  | @sourceless id r _ _ lacks =>
    rw [arrive_counts hs, Counts.next_arrive _ rfl, rejects_sourceless (by decide), if_pos lacks]
  | @arrive id r _ _ named =>
    rw [arrive_counts hs, Counts.next_arrive _ rfl, rejects_arrive, named]
    rfl
  | find at_ _ room =>
    rw [find_counts at_ room hs, Counts.next_old _ rfl rfl, rejects_silent]
    rfl
  | refuse at_ _ new full =>
    rw [refuse_counts at_ new full hs, Counts.next_old _ rfl rfl, rejects_refuse at_ (by decide)]
  | join _ _ =>
    rw [join_counts hs, Counts.next_old _ rfl rfl, rejects_silent]
    rfl
  | drop _ =>
    rw [drop_counts hs, Counts.next_old _ rfl rfl, rejects_drop]
    rfl
  | @work id call _ last? w at_ works =>
    rw [work_counts at_ works hs, Counts.next, works.rejects]
    cases works with
    | proceed _ _ => rfl
    | answer verdict phase =>
      obtain ⟨walk, _⟩ := call
      simp only at phase
      subst phase
      cases verdict with
      | failed fault => rfl
      | taken =>
        simp only [Counts.work, taken?, at_]
        rfl

/-- **The totals are what the moments of a history count.** -/
theorem counts_of_run (run : (machine s).Run h st) : st.counts =
    ⟨((machine s).arrivals h).countP fun a => a.2.isBatch,
      (((machine s).arrivals h).map fun a => a.2.events.length).sum, (pipeline h).length,
      (h.map rejects).sum⟩ := by
  induction run with
  | start => rfl
  | @next h st st' l es run hs ih =>
    rw [step_counts hs ((machine s).callOf h l), ih, Counts.next, pipeline_concat,
      List.length_append, List.map_append, List.sum_append]
    cases hr : l.request? with
    | none =>
      rw [Machine.arrivals_concat_none (next s h st l es) hr]
      simp [Machine.moment]
    | some r =>
      rw [Machine.arrivals_concat_some (next s h st l es) hr, List.countP_append, List.map_append,
        List.sum_append]
      simp [Machine.moment, List.countP_singleton]

end ChangeRelay.Dispatch
