import ChangeRelay.Proofs.Dispatch.Progress

/-!
# A call that has the dispatcher to itself

A caller hands in a request and waits for the answer, and nobody else takes a step meanwhile.
`Session` is a dispatcher with what the pipeline was handed by then, and the pipeline answers by that
alone, so what a call comes to is fixed. A call that finds somebody at work on its source waits for
ever; every other call is answered.

* `take_arrive`, `take_find`, `take_join`, `take_proceed`, `take_answer`: the steps on the way.
* **`serves_of_idle`**: where nobody is in line for its source a call is answered.
-/

namespace ChangeRelay.Dispatch

/-! ## Serving a caller -/

/-- A pipeline that answers by what it was handed so far, the event on offer the last. -/
abbrev Sink := List (String × Event) → Pipeline.Verdict

/-- A dispatcher, with what came of the steps it took. -/
structure Session where
  state : State
  /-- What the pipeline was handed, in order. -/
  offers : List (String × Event)
  /-- What it took. -/
  taken : List (String × Event)
  replies : List DispatchReply

/-- What a caller is told. -/
def Effect.reply? : Effect → Option DispatchReply
  | .reply _ r => some r
  | _ => none

/-- The next step of a call; the pipeline would give the verdict. -/
def Call.next (id : CallId) (verdict : Pipeline.Verdict) (call : Call) : Label :=
  match call.phase with
  | .arrived => .lookup id
  | .found => .join id
  | .inLine => .proceed id
  | .offering _ => .answer id verdict

namespace Session

/-- One step, if it can be taken. -/
def take (s : Settings) (p : Session) (l : Label) : Option Session :=
  (step s p.state l).map fun (st, es) =>
    { state := st
      offers := p.offers ++ es.filterMap Effect.offer?
      taken := p.taken ++ ((taken? ⟨0, l, p.state, es⟩).map Taken.content).toList
      replies := p.replies ++ es.filterMap Effect.reply? }

/-- The next step of a call; the pipeline gives the verdicts. -/
def next? (sink : Sink) (id : CallId) (p : Session) : Option Label :=
  (p.state.calls.get? id).map (Call.next id (sink p.offers))

end Session

/-- The call `id` takes its steps, and nobody else does, until it has come to its end. -/
abbrev Ends (s : Settings) (sink : Sink) (id : CallId) : Session → Session → Prop :=
  Completes (Session.next? sink id) (Session.take s)

/-- A request comes in, and its call comes to its end. -/
def Serves (s : Settings) (sink : Sink) (id : CallId) (r : Request) (p q : Session) : Prop :=
  ∃ p', p.take s (.arrive id r) = some p' ∧ Ends s sink id p' q

variable {s : Settings} {sink : Sink} {id : CallId} {p p' q q' : Session} {l : Label}
variable {last? : Option UInt64} {stream : Stream}

/-! ## A call alone -/

theorem next?_eq_none : p.next? sink id = none ↔ p.state.calls.get? id = none :=
  Option.map_eq_none_iff

/-- The next step of a call in progress. -/
theorem next?_of_get? (sink : Sink) {call : Call} (at_ : p.state.calls.get? id = some call) :
    p.next? sink id = some (call.next id (sink p.offers)) := by
  unfold Session.next?
  rw [at_]
  rfl

/-! ## Where a walk stops -/

/-- What comes of a walk that has stopped. -/
def Session.stop (p : Session) (id : CallId) (h : Halted) : Session where
  state := (p.state.halted id h).1
  offers := p.offers ++ (p.state.halted id h).2.filterMap Effect.offer?
  taken := p.taken
  replies := p.replies ++ (p.state.halted id h).2.filterMap Effect.reply?

/-- The pipeline has taken the event on offer. -/
def Session.accept (p : Session) (x : String) (event : Event) : Session where
  state := { p.state with
    streams := p.state.streams.modify x fun stream => { stream with last? := some event.sequence }
    counts := { p.state.counts with processed := p.state.counts.processed + 1 } }
  offers := p.offers
  taken := p.taken ++ [(x, event)]
  replies := p.replies

/-- The answers are what is told. -/
theorem filterMap_reply? (es : List Effect) :
    es.filterMap Effect.reply? = (es.filterMap Effect.told?).map Prod.snd := by
  rw [List.map_filterMap]
  congr 1
  funext e
  cases e <;> rfl

theorem replies_effects (w : Halted) (id : CallId) (line : List CallId) :
    (w.effects id line).filterMap Effect.reply? = match w.halt with
      | .offer _ => []
      | .done => [w.walk.tally.reply] := by
  rw [filterMap_reply?, told_effects]
  cases w.halt <;> rfl

theorem stop_offer (p : Session) (id : CallId) {h : Halted} {event : Event}
    (none : h.rejections = []) (offer : h.halt = .offer event) :
    p.stop id h =
      { p with
        state := { p.state with calls := p.state.calls.set id ⟨h.walk, .offering event⟩ }
        offers := p.offers ++ [(h.walk.source, event)] } := by
  unfold Session.stop
  rw [halted_effects, offers_effects, replies_effects]
  unfold State.halted
  simp only [offer, none]
  simp [Halt.event?]

theorem replies_stop (p : Session) (id : CallId) (h : Halted) :
    (p.stop id h).replies = p.replies ++ match h.halt with
      | .offer _ => []
      | .done => [h.walk.tally.reply] := by
  unfold Session.stop
  rw [halted_effects, replies_effects]

/-- A call whose walk is over has come to its end. -/
theorem ends_halted (p : Session) {h : Halted} (done : h.halt = .done) :
    Ends s sink id (p.stop id h) (p.stop id h) := by
  refine Completes.stop (next?_eq_none.mpr ?_)
  simp only [Session.stop, halted_calls, if_pos, Halted.call?, done]

/-! ## A call at work -/

/-- A call has a verdict on the event on offer. -/
theorem take_answer {walk : Walk} {event : Event} {line : List CallId} (s : Settings)
    (verdict : Pipeline.Verdict) (at_ : p.state.calls.get? id = some ⟨walk, .offering event⟩)
    (opened : p.state.streams.get? walk.source = some ⟨last?, line⟩) :
    p.take s (.answer id verdict) = some (match verdict with
      | .taken => (p.accept walk.source event).stop id (walk.settle s last? event .taken).2
      | .failed fault => p.stop id (walk.settle s last? event (.failed fault)).2) := by
  have last : p.state.last? walk.source = last? := last?_of_get? opened
  unfold Session.take
  cases verdict with
  | taken =>
    simp only [step, at_, State.answer, last, Option.map_some, Option.some.injEq]
    unfold Session.stop Session.accept taken?
    simp only [at_, Option.map_some, Option.toList_some]
    rfl
  | failed fault =>
    -- The last number is written again as it is.
    have same : p.state.streams.modify walk.source (fun stream => { stream with last? }) =
        p.state.streams := by
      rw [Table.modify_eq_set opened]
      exact Table.set_of_get? opened
    have kept : (walk.settle s last? event (.failed fault)).1 = last? := rfl
    simp only [step, at_, State.answer, last, kept, same, Option.map_some, Option.some.injEq]
    unfold Session.stop taken?
    simp only [Nat.add_zero, Option.map_none, Option.toList_none, List.append_nil]

/-! ## The way to the line -/

/-- A request with events comes in. -/
theorem take_arrive {r : Request} (free : p.state.calls.get? id = none) (nonempty : r.events ≠ [])
    (named : r.lacksSource = false) :
    p.take s (.arrive id r) = some { p with
      state := { p.state with
        counts := p.state.counts.receive r
        calls := p.state.calls.set id ⟨.start (r.source s) r.events, .arrived⟩ } } := by
  have new : p.state.calls.contains id = false := (not_contains_iff _ _).mpr free
  have total : ¬r.events.length = 0 := fun h => nonempty (List.length_eq_zero_iff.mp h)
  have quiet : (arrivalLines r).filterMap Effect.offer? = [] ∧
      (arrivalLines r).filterMap Effect.reply? = [] := by
    cases r <;> exact ⟨rfl, rfl⟩
  unfold Session.take
  simp only [step, new, State.arrive, total, named, if_false, Bool.false_eq_true, Option.map_some,
    quiet.1, quiet.2, List.append_nil]
  simp [taken?]

/-- A request without events is answered at once. -/
theorem take_empty {r : Request} (free : p.state.calls.get? id = none) (empty : r.events = []) :
    p.take s (.arrive id r) = some { p with
      state := { p.state with counts := p.state.counts.receive r }
      replies := p.replies ++ [emptyReply] } := by
  have new : p.state.calls.contains id = false := (not_contains_iff _ _).mpr free
  have total : r.events.length = 0 := List.length_eq_zero_iff.mpr empty
  let effects := emptyLines r ++ [Effect.reply id emptyReply]
  have told : effects.filterMap Effect.offer? = [] ∧
      effects.filterMap Effect.reply? = [emptyReply] := by
    cases r <;> exact ⟨rfl, rfl⟩
  unfold Session.take
  simp only [step, new, State.arrive, total, if_true, if_false, Bool.false_eq_true,
    Option.map_some]
  rw [told.1, told.2]
  simp [taken?]

/-- A request without the source that it has to name is refused at once. -/
theorem take_unnamed {r : Request} (free : p.state.calls.get? id = none)
    (nonempty : r.events ≠ []) (unnamed : r.lacksSource = true) :
    p.take s (.arrive id r) = some { p with
      state := { p.state with counts :=
        { p.state.counts.receive r with
          rejected := (p.state.counts.receive r).rejected + r.events.length } }
      replies := p.replies ++ [refusal .emptySource] } := by
  have new : p.state.calls.contains id = false := (not_contains_iff _ _).mpr free
  have total : ¬r.events.length = 0 := fun h => nonempty (List.length_eq_zero_iff.mp h)
  unfold Session.take
  simp only [step, new, State.arrive, total, unnamed, if_true, if_false, Bool.false_eq_true,
    Option.map_some, taken?, Option.map_none, Option.toList_none, List.append_nil]
  rw [List.filterMap_cons_none rfl, List.filterMap_cons_none rfl, List.filterMap_cons_none rfl]
  simp only [List.filterMap_nil, List.append_nil]
  rfl

/-- A call finds its stream or opens it. -/
theorem take_find {call : Call} (at_ : p.state.calls.get? id = some call)
    (phase : call.phase = .arrived)
    (room : p.state.streams.contains call.walk.source = true ∨
      p.state.streams.size < s.maxStreams) :
    ∃ streams : Table String Stream,
      streams.get? call.walk.source =
        some ((p.state.streams.get? call.walk.source).getD .new) ∧
      (∀ stream, streams.set call.walk.source stream =
        p.state.streams.set call.walk.source stream) ∧
      p.take s (.lookup id) = some { p with
        state := { p.state with
          calls := p.state.calls.set id { call with phase := .found }
          streams } } := by
  unfold Session.take
  by_cases known : p.state.streams.contains call.walk.source = true
  · obtain ⟨stream, hs⟩ := Option.isSome_iff_exists.mp known
    refine ⟨p.state.streams, by rw [hs]; rfl, fun _ => rfl, ?_⟩
    simp only [step, at_, phase, if_true, State.lookup, known, Option.map_some]
    simp [taken?]
  · have small := room.resolve_left known
    have none := (not_contains_iff _ _).mp (Bool.not_eq_true _ ▸ known)
    refine ⟨p.state.streams.set call.walk.source .new, ?_, fun _ => Table.set_set _ _ _ _, ?_⟩
    · rw [Table.get?_set, if_pos rfl, none]
      rfl
    · simp only [step, at_, phase, if_true, State.lookup, known, small, Option.map_some]
      simp [taken?]

/-- A call finds no room for its stream. -/
theorem take_refuse {call : Call} (at_ : p.state.calls.get? id = some call)
    (phase : call.phase = .arrived)
    (full : ¬(p.state.streams.contains call.walk.source = true ∨
      p.state.streams.size < s.maxStreams)) :
    p.take s (.lookup id) = some { p with
      state := { p.state with
        calls := p.state.calls.erase id
        counts := { p.state.counts with
          rejected := p.state.counts.rejected + call.walk.tally.total } }
      replies := p.replies ++ [refusal (.sourceLimit call.walk.source s.maxStreams)] } := by
  obtain ⟨unknown, small⟩ := not_or.mp full
  unfold Session.take
  simp only [step, at_, phase, if_true, State.lookup, if_neg unknown, if_neg small,
    Option.map_some, taken?, Option.map_none, Option.toList_none, List.append_nil]
  rw [List.filterMap_cons_none rfl, List.filterMap_cons_none rfl]
  simp only [List.filterMap_nil, List.append_nil]
  rfl

theorem take_join {call : Call} (at_ : p.state.calls.get? id = some call)
    (phase : call.phase = .found) :
    p.take s (.join id) = some { p with state := p.state.join id call } := by
  unfold Session.take
  simp only [step, at_, phase, if_true, Option.map_some]
  simp [taken?]

theorem take_proceed {call : Call} (at_ : p.state.calls.get? id = some call)
    (phase : call.phase = .inLine)
    (first : (p.state.line call.walk.source).head? = some id) :
    p.take s (.proceed id) =
      some (p.stop id (call.walk.resume s (p.state.last? call.walk.source))) := by
  unfold Session.take
  simp only [step, at_, phase, first, and_self, if_true, Option.map_some, State.proceed]
  unfold Session.stop taken?
  simp

/-- The call that came in at `p` with the walk `w` stands in line at `p'`, `stream` being what it
found. -/
structure Stands (s : Settings) (sink : Sink) (id : CallId) (w : Walk) (stream : Stream)
    (p p' : Session) : Prop where
  ends : ∀ q, Ends s sink id p q ↔ Ends s sink id p' q
  call : p'.state.calls.get? id = some ⟨w, .inLine⟩
  opened : p'.state.streams.get? w.source = some ⟨stream.last?, stream.line ++ [id]⟩
  set : ∀ stream, p'.state.streams.set w.source stream = p.state.streams.set w.source stream
  counts : p'.state.counts = p.state.counts
  offers : p'.offers = p.offers
  taken : p'.taken = p.taken
  replies : p'.replies = p.replies

/-- A call that has come in looks for its stream and joins the line. -/
theorem stands_arrived (sink : Sink) {w : Walk}
    (at_ : p.state.calls.get? id = some ⟨w, .arrived⟩)
    (room : p.state.streams.contains w.source = true ∨ p.state.streams.size < s.maxStreams) :
    ∃ p', Stands s sink id w ((p.state.streams.get? w.source).getD .new) p p' := by
  obtain ⟨streams, opened, set, find⟩ := take_find (s := s) at_ rfl room
  let p₁ : Session :=
    { p with state := { p.state with calls := p.state.calls.set id ⟨w, .found⟩, streams } }
  have at₁ : p₁.state.calls.get? id = some ⟨w, .found⟩ :=
    Table.get?_set_self _ _ _
  have join := take_join (s := s) at₁ rfl
  refine ⟨{ p₁ with state := p₁.state.join id ⟨w, .found⟩ }, ?_, ?_, ?_, ?_, rfl, rfl, rfl, rfl⟩
  · intro q
    have next := next?_of_get? sink at_
    have next₁ := next?_of_get? sink at₁
    exact ⟨fun e => (e.next next find).next next₁ join,
      fun e => Completes.step next find (Completes.step next₁ join e)⟩
  · exact Table.get?_set_self _ _ _
  · exact (Table.get?_modify _ _ _ _).trans ((if_pos rfl).trans (congrArg _ opened))
  · exact fun stream => (Table.set_modify _ _ _ _).trans (set stream)

/-! ## Answers -/

/-- The call comes to its end, and its caller, told `before` until then, is told once more. -/
def Answered (s : Settings) (sink : Sink) (id : CallId) (before : List DispatchReply)
    (p : Session) : Prop :=
  ∃ q reply, Ends s sink id p q ∧ q.replies = before ++ [reply]

variable {before : List DispatchReply}

theorem Answered.step (a : Answered s sink id before p') (next : p.next? sink id = some l)
    (take : p.take s l = some p') : Answered s sink id before p := by
  obtain ⟨q, reply, ends, replies⟩ := a
  exact ⟨q, reply, Completes.step next take ends, replies⟩

/-- A walk that has stopped is over, or has an event on offer. -/
theorem answered_stop {h : Halted} (opened : p.state.streams.get? h.walk.source = some stream)
    (rest : ∀ event, h.halt = .offer event →
      (p.stop id h).state.calls.get? id = some ⟨h.walk, .offering event⟩ →
        (p.stop id h).state.streams.get? h.walk.source = some stream →
          Answered s sink id (p.stop id h).replies (p.stop id h)) :
    Answered s sink id p.replies (p.stop id h) := by
  have replies := replies_stop p id h
  cases hh : h.halt with
  | done =>
    rw [hh] at replies
    exact ⟨_, _, ends_halted p hh, replies⟩
  | offer event =>
    have calls : (p.stop id h).state.calls.get? id = some ⟨h.walk, .offering event⟩ := by
      unfold Session.stop
      rw [halted_calls, if_pos rfl, Halted.call?, hh]
    have streams : (p.stop id h).state.streams.get? h.walk.source = some stream := by
      unfold Session.stop
      rw [halted_streams, hh]
      exact opened
    rw [hh] at replies
    have answered := rest event hh calls streams
    rwa [replies, List.append_nil] at answered

/-- An event on offer after a verdict is one that the walk has left. -/
theorem settle_todo_ne {walk : Walk} {event event' : Event} {verdict : Pipeline.Verdict}
    (some : walk.todo ≠ [])
    (offer : (walk.settle s last? event verdict).2.halt = .offer event') :
    (walk.settle s last? event verdict).2.walk.todo ≠ [] := by
  obtain ⟨e, es, todo⟩ := List.exists_cons_of_ne_nil some
  have left : ∃ e es, (walk.settle s last? event verdict).2.walk.todo = e :: es := by
    cases verdict with
    | taken =>
      obtain ⟨e, es, left, -⟩ := (settle_taken s last? walk event).2.offer event' offer
      exact ⟨e, es, left⟩
    | failed fault =>
      obtain ⟨e, es, left, -⟩ := (settle_failed s last? event fault todo).2.offer event' offer
      exact ⟨e, es, left⟩
  obtain ⟨e, es, left⟩ := left
  rw [left]
  exact List.cons_ne_nil e es

/-- A call with an event on offer is answered, by induction on the events it has left. -/
theorem answered_offering {walk : Walk} {event : Event} (sink : Sink)
    (at_ : p.state.calls.get? id = some ⟨walk, .offering event⟩)
    (opened : p.state.streams.get? walk.source = some stream) (left : walk.todo ≠ []) :
    Answered s sink id p.replies p := by
  generalize hk : walk.todo.length = k
  induction k using Nat.strongRecOn generalizing p walk event stream with
  | ind k ih =>
    subst hk
    obtain ⟨e, es, todo⟩ := List.exists_cons_of_ne_nil left
    obtain ⟨last?, line⟩ := stream
    have next : p.next? sink id = some (.answer id (sink p.offers)) := next?_of_get? sink at_
    have take := take_answer s (sink p.offers) at_ opened
    have less := settle_todo_lt s last? event (sink p.offers) todo
    have source := settle_source s last? walk event (sink p.offers)
    cases hv : sink p.offers with
    | taken =>
      rw [hv] at next take less source
      have opened' : (p.accept walk.source event).state.streams.get?
          (walk.settle s last? event .taken).2.walk.source = some ⟨some event.sequence, line⟩ := by
        rw [source, Session.accept, Table.get?_modify, if_pos rfl, opened]
        rfl
      exact (answered_stop opened' fun event' offer at' opened' =>
        ih _ less at' opened' (settle_todo_ne left offer) rfl).step next take
    | failed fault =>
      rw [hv] at next take less source
      have opened' : p.state.streams.get? (walk.settle s last? event (.failed fault)).2.walk.source =
          some ⟨last?, line⟩ := source ▸ opened
      exact (answered_stop opened' fun event' offer at' opened' =>
        ih _ less at' opened' (settle_todo_ne left offer) rfl).step next take

/-- What a call finds where nobody is in line. -/
theorem stream_of_idle {x : String} (idle : p.state.line x = []) :
    (p.state.streams.get? x).getD .new = ⟨p.state.last? x, []⟩ := by
  rw [State.line_eq] at idle
  rw [State.last?_eq]
  cases hs : p.state.streams.get? x with
  | none => rfl
  | some stream =>
    rw [hs] at idle
    obtain ⟨last?, line⟩ := stream
    obtain rfl : line = [] := idle
    rfl

/-- A call that has come in where nobody is in line is answered. -/
theorem answered_arrived (sink : Sink) {w : Walk}
    (at_ : p.state.calls.get? id = some ⟨w, .arrived⟩) (idle : p.state.line w.source = []) :
    Answered s sink id p.replies p := by
  by_cases room : p.state.streams.contains w.source = true ∨ p.state.streams.size < s.maxStreams
  · obtain ⟨p', stands⟩ := stands_arrived (s := s) sink at_ room
    have opened : p'.state.streams.get? w.source = some ⟨p.state.last? w.source, [id]⟩ :=
      stands.opened.trans (congrArg (fun stream : Stream => some { stream with
        line := stream.line ++ [id] }) (stream_of_idle idle))
    have first : (p'.state.line w.source).head? = some id := by
      rw [line_of_get? opened]
      rfl
    have proceeds := take_proceed (s := s) stands.call rfl first
    have from_ := resume_from s (p'.state.last? w.source) w
    have stops : Answered s sink id p'.replies
        (p'.stop id (w.resume s (p'.state.last? w.source))) := by
      refine answered_stop (from_.source ▸ opened) fun event offer at' opened' => ?_
      obtain ⟨e, es, left, -⟩ := from_.offer event offer
      exact answered_offering sink at' opened' (left ▸ List.cons_ne_nil e es)
    obtain ⟨q, reply, ends, replies⟩ := stops.step (next?_of_get? sink stands.call) proceeds
    exact ⟨q, reply, (stands.ends q).mpr ends, stands.replies ▸ replies⟩
  · have refuse := take_refuse (s := s) at_ rfl room
    refine ⟨_, _, Completes.step (next?_of_get? sink at_) refuse (Completes.stop ?_), rfl⟩
    exact next?_eq_none.mpr (Table.get?_erase_self _ _)

/-- **Where nobody is in line for its source** a call is answered. -/
theorem serves_of_idle (sink : Sink) (r : Request) (free : p.state.calls.get? id = none)
    (idle : p.state.line (r.source s) = []) :
    ∃ q reply, Serves s sink id r p q ∧ q.replies = p.replies ++ [reply] := by
  by_cases none : r.events = []
  · refine ⟨_, _, ⟨_, take_empty free none, Completes.stop ?_⟩, rfl⟩
    exact next?_eq_none.mpr free
  · by_cases unnamed : r.lacksSource = true
    · refine ⟨_, _, ⟨_, take_unnamed free none unnamed, Completes.stop ?_⟩, rfl⟩
      exact next?_eq_none.mpr free
    · have arrive := take_arrive (s := s) free none (by simpa using unnamed)
      have answered := answered_arrived (s := s) sink (p := { p with
        state := { p.state with
          counts := p.state.counts.receive r
          calls := p.state.calls.set id ⟨.start (r.source s) r.events, .arrived⟩ } })
        (Table.get?_set_self _ _ _) idle
      obtain ⟨q, reply, ends, replies⟩ := answered
      exact ⟨q, reply, ⟨_, arrive, ends⟩, replies⟩

end ChangeRelay.Dispatch
