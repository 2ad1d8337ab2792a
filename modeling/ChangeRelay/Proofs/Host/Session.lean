import ChangeRelay.Host.Step
import ChangeRelay.Proofs.Dispatch.Session

/-!
# A request that has the host to itself

A request with events comes to a host with a free slot and is waited for, and nobody else takes a
step meanwhile. What then goes on in the host is what goes on in its dispatcher: `Session.dispatcher`
forgets the rest, every step of the dispatcher is a step of the host, and so is every way that a
call goes to its end.

* **`take_dispatch`**, **`take_request`**: the steps of the dispatcher are steps of the host.
* **`ends_of_dispatcher`**: so a call that comes to its end there comes to its end in the host.
* **`serves_of_idle`**: where nobody is in line for its source a request is answered.
-/

namespace ChangeRelay

/-- A slot is given at once to who asks for one. -/
def Pool.HasSlot (p : Pool) : Prop := p.closed = false ∧ 0 < p.available

namespace Host

open Dispatch (Sink)

/-- The pipeline is handed an event. -/
def Effect.offer? : Effect → Option (String × ChangeRelay.Event)
  | .offer _ source event => some (source, event)
  | _ => none

/-- What a caller with events is told. -/
def Effect.reply? : Effect → Option DispatchReply
  | .reply _ (.dispatch r) => some r
  | _ => none

/-- What the pipeline takes at a step. -/
def taken? (st : State) : Label → Option (String × ChangeRelay.Event)
  | .dispatch l => (Dispatch.taken? ⟨0, l, st.dispatch, []⟩).map Dispatch.Taken.content
  | _ => none

/-- A host, with what came of the steps it took as far as events go. -/
structure Session where
  state : State
  /-- What the pipeline was handed, in order. -/
  offers : List (String × ChangeRelay.Event)
  /-- What it took. -/
  taken : List (String × ChangeRelay.Event)
  replies : List DispatchReply

namespace Session

/-- What of it concerns the dispatcher. -/
def dispatcher (p : Session) : Dispatch.Session := ⟨p.state.dispatch, p.offers, p.taken, p.replies⟩

/-- What comes of a step. -/
def after (p : Session) (l : Label) (r : State × List Effect) : Session where
  state := r.1
  offers := p.offers ++ r.2.filterMap Effect.offer?
  taken := p.taken ++ (taken? p.state l).toList
  replies := p.replies ++ r.2.filterMap Effect.reply?

/-- One step, if it can be taken. -/
def take (s : Settings) (p : Session) (l : Label) : Option Session :=
  (step s p.state l).map (p.after l)

/-- The next step of a call that has its slot; the pipeline gives the verdicts. -/
def next? (sink : Sink) (id : CallId) (p : Session) : Option Label :=
  (p.dispatcher.next? sink id).map .dispatch

end Session

/-- The call `id` takes its steps, and nobody else does, until it has come to its end. -/
abbrev Ends (s : Settings) (sink : Sink) (id : CallId) : Session → Session → Prop :=
  Completes (Session.next? sink id) (Session.take s)

/-- Events come in, and their call comes to its end. -/
def Serves (s : Settings) (sink : Sink) (id : CallId) (r : Dispatch.Request) (p q : Session) :
    Prop :=
  ∃ p', p.take s (.request id (.dispatch r)) = some p' ∧ Ends s sink id p' q

variable {s : Settings} {sink : Sink} {id : CallId} {p p' q q' : Session} {st : State}

/-! ## The steps of the dispatcher -/

theorem quiet_wakes (woken? : Option CallId) :
    (woken?.toList.map Effect.wake).filterMap Effect.offer? = [] ∧
      (woken?.toList.map Effect.wake).filterMap Effect.reply? = [] := by
  cases woken? <;> exact ⟨rfl, rfl⟩

/-- Taking over what the dispatcher does leaves the dispatcher as it is, and keeps what the pipeline
is handed and what callers are told. -/
theorem dispatched_spec (es : List Dispatch.Effect) (st : State) :
    (st.dispatched es).1.dispatch = st.dispatch ∧
      (st.dispatched es).2.filterMap Effect.offer? = es.filterMap Dispatch.Effect.offer? ∧
      (st.dispatched es).2.filterMap Effect.reply? = es.filterMap Dispatch.Effect.reply? := by
  induction es generalizing st with
  | nil => exact ⟨rfl, rfl, rfl⟩
  | cons e es ih =>
    cases e with
    | log line => exact ih st
    | offer id source event =>
      obtain ⟨dispatch, offers, replies⟩ := ih st
      exact ⟨dispatch, congrArg _ offers, replies⟩
    | wake id => exact ih st
    | reply id reply =>
      obtain ⟨dispatch, offers, replies⟩ := ih (st.withPool (st.pool.release id)).1
      obtain ⟨noOffers, noReplies⟩ := quiet_wakes (st.pool.release id).2
      refine ⟨dispatch, ?_, ?_⟩
      · refine List.filterMap_append.trans ?_
        rw [noOffers]
        exact offers
      · refine List.filterMap_append.trans ?_
        rw [noReplies]
        exact congrArg (reply :: ·) replies

/-- **A step of the dispatcher** is a step of the host. -/
theorem take_dispatch {l : Dispatch.Label} {d : Dispatch.Session} (own : isOwnStep l = true)
    (h : p.dispatcher.take s.dispatch l = some d) :
    ∃ p', p.take s (.dispatch l) = some p' ∧ p'.dispatcher = d := by
  unfold Dispatch.Session.take at h
  obtain ⟨⟨dispatch, es⟩, steps, rfl⟩ := Option.map_eq_some_iff.mp h
  obtain ⟨same, offers, replies⟩ := dispatched_spec es { p.state with dispatch }
  have host : step s p.state (.dispatch l) = some ({ p.state with dispatch }.dispatched es) :=
    (if_pos own).trans
      (congrArg (Option.map fun r => { p.state with dispatch := r.1 }.dispatched r.2) steps)
  refine ⟨_, congrArg (Option.map (p.after (.dispatch l))) host, ?_⟩
  unfold Session.dispatcher Session.after
  rw [same, offers, replies]
  rfl

theorem acquire_of_hasSlot {pool : Pool} (h : pool.HasSlot) : pool.acquire id =
    ({ pool with available := pool.available - 1, holders := pool.holders ++ [id] }, .granted) := by
  unfold Pool.acquire
  rw [h.1, if_neg Bool.false_ne_true, if_pos h.2]

/-- Events that find a free slot come to the dispatcher at once. -/
theorem step_request {r : Dispatch.Request} (new : st.contains id = false)
    (slot : st.pool.HasSlot) : step s st (.request id (.dispatch r)) =
      some (State.dispatched
        { st with
          pool := (st.pool.acquire id).1
          dispatch := (st.dispatch.arrive s.dispatch id r).1 }
        (st.dispatch.arrive s.dispatch id r).2) := by
  unfold step
  simp only [new, Bool.false_eq_true, if_false, State.request, acquire_of_hasSlot slot]
  rfl

/-- **A request that finds a free slot** comes to the dispatcher. -/
theorem take_request {r : Dispatch.Request} {d : Dispatch.Session}
    (new : p.state.contains id = false) (slot : p.state.pool.HasSlot)
    (h : p.dispatcher.take s.dispatch (.arrive id r) = some d) :
    ∃ p', p.take s (.request id (.dispatch r)) = some p' ∧ p'.dispatcher = d := by
  unfold Dispatch.Session.take at h
  obtain ⟨⟨dispatch, es⟩, steps, rfl⟩ := Option.map_eq_some_iff.mp h
  obtain ⟨-, arrives⟩ := Option.ite_none_left_eq_some.mp steps
  have arrives : p.state.dispatch.arrive s.dispatch id r = (dispatch, es) :=
    Option.some.inj arrives
  have host := step_request (s := s) (r := r) new slot
  rw [arrives] at host
  obtain ⟨same, offers, replies⟩ := dispatched_spec es
    { p.state with pool := (p.state.pool.acquire id).1, dispatch }
  refine ⟨_, congrArg (Option.map (p.after (.request id (.dispatch r)))) host, ?_⟩
  unfold Session.dispatcher Session.after
  rw [same, offers, replies]
  rfl

theorem isOwnStep_of_next {d : Dispatch.Session} {l : Dispatch.Label}
    (next : d.next? sink id = some l) : isOwnStep l = true := by
  obtain ⟨call, -, rfl⟩ := Option.map_eq_some_iff.mp next
  unfold Dispatch.Call.next
  cases call.phase <;> rfl

/-- **A call that comes to its end in the dispatcher** comes to its end in the host. -/
theorem ends_of_dispatcher {d d' : Dispatch.Session} (e : Dispatch.Ends s.dispatch sink id d d')
    (same : p.dispatcher = d) : ∃ q, Ends s sink id p q ∧ q.dispatcher = d' := by
  induction e generalizing p with
  | stop gone =>
    subst same
    exact ⟨p, Completes.stop (congrArg (Option.map Label.dispatch) gone), rfl⟩
  | step next take _ ih =>
    subst same
    have own := isOwnStep_of_next next
    obtain ⟨p', takes, same⟩ := take_dispatch own take
    obtain ⟨q, ends, same'⟩ := ih same
    exact ⟨q, Completes.step (congrArg (Option.map Label.dispatch) next) takes ends, same'⟩

/-- **Where nobody is in line for its source** a request is answered. -/
theorem serves_of_idle (sink : Sink) (r : Dispatch.Request) (new : p.state.contains id = false)
    (free : p.state.dispatch.calls.get? id = none) (slot : p.state.pool.HasSlot)
    (idle : p.state.dispatch.line (r.source s.dispatch) = []) :
    ∃ q reply, Serves s sink id r p q ∧ q.replies = p.replies ++ [reply] := by
  obtain ⟨d, reply, ⟨d', arrives, ends⟩, replies⟩ :=
    Dispatch.serves_of_idle (p := p.dispatcher) sink r free idle
  obtain ⟨p', takes, same⟩ := take_request new slot arrives
  obtain ⟨q, ends', same'⟩ := ends_of_dispatcher ends same
  refine ⟨q, reply, ⟨p', takes, ends'⟩, ?_⟩
  exact (congrArg Dispatch.Session.replies same').trans replies

end Host

end ChangeRelay
