import ChangeRelay.Proofs.Dispatch.Session

/-!
# Events in groups

A caller has a list of events for the default stream and sends them in groups, one after the other:
as single events, as groups or as batches. Under the policy `proceed` serving a group is no more than
visiting its events one by one (`View.visit`), so it does not matter how the events are cut into
groups, nor how each group is sent: by `dispatch_single`, `dispatch_default` or `dispatch_batch`.

* **`ends_stop`**: a call at work visits the events it has left.
* **`serves_visits`**: serving a group visits its events.
* **`cutting_of_run`**: what is seen in the end is the same however the events are cut.
-/

namespace ChangeRelay.Dispatch

/-- One request after the other is served. -/
inductive ServesAll (s : Settings) (sink : Sink) (id : CallId) : List Request → Session → Session →
    Prop
  | nil {p : Session} : ServesAll s sink id [] p p
  | cons {r : Request} {rs : List Request} {p p' q : Session} (first : Serves s sink id r p p')
      (rest : ServesAll s sink id rs p' q) : ServesAll s sink id (r :: rs) p q

/-! ## What is seen of it -/

/-- What the caller and the pipeline see, and what is counted. -/
structure View where
  /-- The streams, with their last numbers. -/
  streams : Table String Stream
  offers : List (String × Event)
  taken : List (String × Event)
  received : Nat
  processed : Nat
  rejected : Nat
  /-- The sum of what the caller is told to be processed. -/
  told : UInt64
  /-- Whether it is told of nothing but success. -/
  good : Bool

/-- The sum of what replies tell to be processed. -/
def told (replies : List DispatchReply) : UInt64 := replies.foldl (fun n r => n + r.processed) 0

def Session.view (p : Session) : View where
  streams := p.state.streams
  offers := p.offers
  taken := p.taken
  received := p.state.counts.received
  processed := p.state.counts.processed
  rejected := p.state.counts.rejected
  told := told p.replies
  good := p.replies.all DispatchReply.success

namespace View

/-- One more event is rejected. -/
def reject (v : View) : View := { v with rejected := v.rejected + 1, good := false }

/-- The stream of a source, nobody in its line, has this last number. -/
def write (v : View) (x : String) (last? : Option UInt64) : View :=
  { v with streams := v.streams.set x ⟨last?, []⟩ }

/-- The pipeline is handed an event. -/
def offer (v : View) (x : String) (event : Event) : View :=
  { v with offers := v.offers ++ [(x, event)] }

/-- The pipeline has taken an event. -/
def accept (v : View) (x : String) (event : Event) : View :=
  { v.write x (some event.sequence) with
    taken := v.taken ++ [(x, event)]
    processed := v.processed + 1
    told := v.told + 1 }

/-- One event for the default stream, if every event is attempted. -/
def visit (s : Settings) (sink : Sink) (v : View) (e : Wire.Event) : View :=
  let x := s.defaultSource
  let v := { v with received := v.received + 1 }
  if v.streams.contains x ∨ v.streams.size < s.maxStreams then
    let last? := (v.streams.get? x).bind Stream.last?
    let v := v.write x last?
    match examine x last? e with
    | .error _ => v.reject
    | .ok event =>
      let v := v.offer x event
      match sink v.offers with
      | .taken => v.accept x event
      | .failed _ => v.reject
  else v.reject

end View

variable {s : Settings} {sink : Sink} {id : CallId} {p p' q q' : Session}
variable {last? : Option UInt64} {x : String} {t : Tally}

theorem ServesAll.unique {rs : List Request} (e : ServesAll s sink id rs p q)
    (e' : ServesAll s sink id rs p q') : q = q' := by
  induction e with
  | nil =>
    cases e' with
    | nil => rfl
  | cons first _ ih =>
    cases e' with
    | cons first' rest' =>
      obtain ⟨_, take, ends⟩ := first
      obtain ⟨_, take', ends'⟩ := first'
      obtain rfl := Option.some.inj (take.symm.trans take')
      obtain rfl := ends.unique ends'
      exact ih rest'

/-! ## A walk seen from outside -/

/-- One more event is rejected. -/
def Session.reject (p : Session) : Session :=
  { p with state := { p.state with
      counts := { p.state.counts with rejected := p.state.counts.rejected + 1 } } }

/-- A rejection on the way counts as one more. -/
theorem stop_cons (p : Session) (id : CallId) (h : Halted) (r : Rejection) :
    p.stop id { h with rejections := r :: h.rejections } = p.reject.stop id h := by
  have state : (p.state.halted id { h with rejections := r :: h.rejections }).1 =
      (p.reject.state.halted id h).1 := by
    have count : p.state.counts.rejected + (r :: h.rejections).length =
        p.state.counts.rejected + 1 + h.rejections.length := by
      simp only [List.length_cons]
      omega
    unfold State.halted Session.reject
    cases h.halt with
    | offer event => simp only [count]
    | done => simp only [count]
  unfold Session.stop
  rw [state, halted_effects, halted_effects, offers_effects, offers_effects, replies_effects,
    replies_effects]
  rfl

/-- What would be seen if the call at work on `x` came to its end, `n` events having come in. -/
def Session.viewAt (p : Session) (x : String) (last? : Option UInt64) (t : Tally) (n : Nat) :
    View where
  streams := p.state.streams.set x ⟨last?, []⟩
  offers := p.offers
  taken := p.taken
  received := n
  processed := p.state.counts.processed
  rejected := p.state.counts.rejected
  told := told p.replies + UInt64.ofNat t.processed
  good := p.replies.all DispatchReply.success && t.reason?.isNone

theorem told_concat (replies : List DispatchReply) (r : DispatchReply) :
    told (replies ++ [r]) = told replies + r.processed := List.foldl_append

theorem reply_processed (t : Tally) : t.reply.processed = UInt64.ofNat t.processed := by
  unfold Tally.reply
  cases t.reason? <;> rfl

theorem reply_success (t : Tally) : t.reply.success = t.reason?.isNone := by
  unfold Tally.reply
  cases t.reason? <;> rfl

/-- A call comes to its end. -/
theorem ends_done (at_ : p.state.streams.get? x = some ⟨last?, [id]⟩) {n : Nat}
    (received : p.state.counts.received = n) :
    ∃ q, Ends s sink id (p.stop id ⟨⟨x, [], t⟩, [], .done⟩) q ∧ q.view = p.viewAt x last? t n := by
  have line : p.state.line x = [id] := line_of_get? at_
  refine ⟨_, ends_halted p rfl, ?_⟩
  unfold Session.view Session.stop Session.viewAt
  rw [halted_effects, offers_effects, replies_effects]
  simp only [told_concat, reply_processed, List.all_append, List.all_cons, List.all_nil,
    reply_success, Bool.and_true, ← received, halted_streams, line, Table.modify_eq_set at_,
    List.erase_cons_head, Halt.event?]
  simp [State.halted, State.close, State.leave]

/-- An event that cannot be offered is visited. -/
theorem visit_error (p : Session) (t : Tally) (n : Nat) (sink : Sink) {e : Wire.Event}
    {cause : Invalid} (h : examine s.defaultSource last? e = .error cause) (reason : String) :
    (p.viewAt s.defaultSource last? t n).visit s sink e =
      p.reject.viewAt s.defaultSource last? (t.reject reason) (n + 1) := by
  unfold View.visit
  simp only [Session.viewAt, Table.contains_set_self, true_or, if_true, Table.get?_set_self,
    Option.bind_some, h]
  unfold View.reject View.write Session.reject
  simp [Table.set_set, Tally.reject]

/-- An event that is offered is visited. -/
theorem visit_ok (p : Session) (t : Tally) (n : Nat) (sink : Sink) {e : Wire.Event}
    {event : Event} (h : examine s.defaultSource last? e = .ok event) :
    let p' := { p with offers := p.offers ++ [(s.defaultSource, event)] }
    (p.viewAt s.defaultSource last? t n).visit s sink e =
      match sink p'.offers with
      | .taken => (p'.accept s.defaultSource event).viewAt s.defaultSource (some event.sequence)
        t.accept (n + 1)
      | .failed fault => p'.reject.viewAt s.defaultSource last? (t.reject fault.message)
        (n + 1) := by
  unfold View.visit
  simp only [Session.viewAt, Table.contains_set_self, true_or, if_true, Table.get?_set_self,
    Option.bind_some, h]
  unfold View.offer View.write
  cases hv : sink (p.offers ++ [(s.defaultSource, event)]) with
  | taken =>
    unfold View.accept View.write Session.accept
    simp [Table.set_set, Table.set_modify, Tally.accept, UInt64.ofNat_add, UInt64.add_assoc]
  | failed fault =>
    unfold View.reject Session.reject
    simp [Table.set_set, Tally.reject]

/-- **A call at work visits the events it has left**, by induction on them. -/
theorem ends_stop (proceed : s.failurePolicy = .proceed) (sink : Sink) :
    ∀ (es : List Wire.Event) {p : Session} {last? : Option UInt64} {t : Tally} {n : Nat},
      p.state.streams.get? s.defaultSource = some ⟨last?, [id]⟩ →
      p.state.counts.received = n + es.length →
        ∃ q, Ends s sink id (p.stop id (Walk.advance s s.defaultSource last? es t)) q ∧
          q.view = es.foldl (View.visit s sink) (p.viewAt s.defaultSource last? t n)
  | [], _, _, _, _, opened, received => ends_done opened received
  | e :: es, p, last?, t, n, opened, received => by
    have received' : p.state.counts.received = n + 1 + es.length := by
      rw [received, List.length_cons]
      omega
    unfold Walk.advance
    cases hx : examine s.defaultSource last? e with
    | error cause =>
      simp only [proceed]
      rw [stop_cons, List.foldl_cons, visit_error p t n sink hx cause.message]
      exact ends_stop proceed sink es opened received'
    | ok event =>
      let walk : Walk := ⟨s.defaultSource, e :: es, t⟩
      let offered : Session :=
        { p with
          state := { p.state with calls := p.state.calls.set id ⟨walk, .offering event⟩ }
          offers := p.offers ++ [(s.defaultSource, event)] }
      have stopped : p.stop id ⟨walk, [], .offer event⟩ = offered := stop_offer p id rfl rfl
      have at_ : offered.state.calls.get? id = some ⟨walk, .offering event⟩ :=
        Table.get?_set_self _ _ _
      have next : offered.next? sink id = some (.answer id (sink offered.offers)) :=
        next?_of_get? sink at_
      have taken := take_answer s (sink offered.offers) at_ opened
      rw [show p.stop id _ = offered from stopped, List.foldl_cons, visit_ok p t n sink hx]
      cases hv : sink offered.offers with
      | taken =>
        have last : (offered.accept s.defaultSource event).state.streams.get? s.defaultSource =
            some ⟨some event.sequence, [id]⟩ := by
          rw [Session.accept, Table.get?_modify, if_pos rfl, opened]
          rfl
        obtain ⟨q, ends, view⟩ :=
          ends_stop proceed sink es (t := t.accept) (n := n + 1) last received'
        rw [hv] at taken next
        exact ⟨q, Completes.step next taken ends, view⟩
      | failed fault =>
        have last : offered.reject.state.streams.get? s.defaultSource = some ⟨last?, [id]⟩ :=
          opened
        obtain ⟨q, ends, view⟩ := ends_stop proceed sink es
          (t := t.reject fault.message) (n := n + 1) last received'
        have settled : offered.stop id (walk.settle s last? event (.failed fault)).2 =
            offered.reject.stop id
              (Walk.advance s s.defaultSource last? es (t.reject fault.message)) := by
          unfold Walk.settle
          simp only [proceed]
          exact stop_cons offered id _ _
        rw [hv] at taken next
        exact ⟨q, Completes.step next (taken.trans (congrArg some settled)) ends, view⟩

/-! ## A group -/

/-- Where there is no room for the default stream every event is rejected. -/
theorem visits_full (sink : Sink) : ∀ (es : List Wire.Event) {v : View},
    ¬(v.streams.contains s.defaultSource = true ∨ v.streams.size < s.maxStreams) →
      es.foldl (View.visit s sink) v =
        { v with
          received := v.received + es.length
          rejected := v.rejected + es.length
          good := v.good && es.isEmpty }
  | [], v, _ => by simp
  | e :: es, v, full => by
    have first : v.visit s sink e = { v with
        received := v.received + 1, rejected := v.rejected + 1, good := false } := by
      unfold View.visit
      simp only [full, if_false]
      rfl
    rw [List.foldl_cons, first]
    refine (visits_full sink es ?_).trans ?_
    · exact full
    simp only [List.length_cons, Bool.false_and, List.isEmpty_cons, Bool.and_false,
      View.mk.injEq, and_true, true_and]
    omega

/-- A stream may be opened before the first event is visited. -/
theorem visit_write (sink : Sink) {v : View} (e : Wire.Event)
    (room : v.streams.contains s.defaultSource = true ∨ v.streams.size < s.maxStreams) :
    (v.write s.defaultSource ((v.streams.get? s.defaultSource).bind Stream.last?)).visit s sink e =
      v.visit s sink e := by
  unfold View.visit
  simp only [View.write, Table.contains_set_self, true_or, if_true, room, Table.get?_set_self,
    Option.bind_some, Table.set_set]

/-- A call that has come in where nobody is in line visits its events. -/
theorem ends_arrived (proceed : s.failurePolicy = .proceed) (sink : Sink)
    {e : Wire.Event} {es : List Wire.Event}
    (at_ : p.state.calls.get? id = some ⟨.start s.defaultSource (e :: es), .arrived⟩)
    (idle : p.state.line s.defaultSource = [])
    (room : p.state.streams.contains s.defaultSource = true ∨
      p.state.streams.size < s.maxStreams) {n : Nat}
    (received : p.state.counts.received = n + (e :: es).length) :
    ∃ q, Ends s sink id p q ∧
      q.view = (e :: es).foldl (View.visit s sink) { p.view with received := n } := by
  obtain ⟨p', stands⟩ := stands_arrived sink at_ room
  have opened : p'.state.streams.get? s.defaultSource =
      some ⟨p.state.last? s.defaultSource, [id]⟩ :=
    stands.opened.trans (congrArg (fun stream : Stream => some { stream with
      line := stream.line ++ [id] }) (stream_of_idle idle))
  have first : (p'.state.line s.defaultSource).head? = some id := by
    rw [line_of_get? opened]
    rfl
  obtain ⟨q, ends, view⟩ := ends_stop proceed sink (e :: es) (t := .start (e :: es).length)
    opened (stands.counts ▸ received)
  have proceeds := take_proceed (s := s) stands.call rfl first
  rw [last?_of_get? (x := Walk.source _) opened] at proceeds
  refine ⟨q, (stands.ends q).mpr (Completes.step (next?_of_get? sink stands.call) proceeds ends), ?_⟩
  have opens : p'.viewAt s.defaultSource (p.state.last? s.defaultSource)
      (.start (e :: es).length) n = ({ p.view with received := n } : View).write s.defaultSource
        (p.state.last? s.defaultSource) := by
    have set : p'.state.streams.set s.defaultSource ⟨p.state.last? s.defaultSource, []⟩ =
        p.state.streams.set s.defaultSource ⟨p.state.last? s.defaultSource, []⟩ := stands.set _
    unfold Session.viewAt View.write
    rw [set, stands.counts, stands.offers, stands.taken, stands.replies]
    simp [Session.view, Tally.start]
  rw [view, opens, List.foldl_cons, List.foldl_cons]
  exact congrArg (fun v => es.foldl _ v) (visit_write sink (v := { p.view with received := n })
    e room)

/-- A request for the default stream, with events. -/
structure Request.ForDefault (s : Settings) (r : Request) : Prop where
  nonempty : r.events ≠ []
  source : r.source s = s.defaultSource

theorem Request.ForDefault.named {r : Request} (f : r.ForDefault s) (name : s.defaultSource ≠ "") :
    r.lacksSource = false := by
  cases r with
  | single e => rfl
  | group es => rfl
  | batch b =>
    have source : b.source = s.defaultSource := f.source
    rw [Request.lacksSource, source, ← Bool.not_eq_true, String.isEmpty_iff]
    exact name

theorem received_receive (c : Counts) (r : Request) :
    (c.receive r).received = c.received + r.events.length := by
  cases r <;> rfl

/-- **Serving a group visits its events**, however it is sent. -/
theorem serves_visits (proceed : s.failurePolicy = .proceed) (name : s.defaultSource ≠ "")
    (sink : Sink) {r : Request} (f : r.ForDefault s) (free : p.state.calls.get? id = none)
    (idle : p.state.line s.defaultSource = []) :
    ∃ q, Serves s sink id r p q ∧ q.view = r.events.foldl (View.visit s sink) p.view := by
  have arrive := take_arrive (s := s) free f.nonempty (f.named name)
  obtain ⟨e, es, events⟩ := List.exists_cons_of_ne_nil f.nonempty
  rw [f.source, events] at arrive
  rw [events]
  let p₁ : Session := { p with
    state := { p.state with
      counts := p.state.counts.receive r
      calls := p.state.calls.set id ⟨.start s.defaultSource (e :: es), .arrived⟩ } }
  have at_ : p₁.state.calls.get? id = some ⟨.start s.defaultSource (e :: es), .arrived⟩ :=
    Table.get?_set_self _ _ _
  have received : p₁.state.counts.received = p.state.counts.received + (e :: es).length := by
    rw [← events]
    exact received_receive _ r
  have others : { p₁.view with received := p.state.counts.received } = p.view := by
    cases r <;> rfl
  by_cases room : p.state.streams.contains s.defaultSource = true ∨
      p.state.streams.size < s.maxStreams
  · obtain ⟨q, ends, view⟩ := ends_arrived proceed sink at_ idle room received
    rw [others] at view
    exact ⟨q, ⟨p₁, arrive, ends⟩, view⟩
  · have refuse := take_refuse (s := s) at_ rfl room
    refine ⟨_, ⟨p₁, arrive, Completes.step (next?_of_get? sink at_) refuse (Completes.stop ?_)⟩, ?_⟩
    · exact next?_eq_none.mpr (Table.get?_erase_self _ _)
    · rw [visits_full sink (e :: es) room, ← others]
      simp only [Session.view, told_concat, List.all_append, received]
      simp [refusal, Walk.start, Tally.start, p₁]

/-- Where nobody is in the line of the default stream nobody is after a visit. -/
theorem idle_visits (sink : Sink) : ∀ (es : List Wire.Event) {v : View},
    ((v.streams.get? s.defaultSource).map Stream.line).getD [] = [] →
      (((es.foldl (View.visit s sink) v).streams.get? s.defaultSource).map Stream.line).getD [] = []
  | [], _, idle => idle
  | e :: es, v, idle => by
    rw [List.foldl_cons]
    refine idle_visits sink es ?_
    unfold View.visit
    simp only
    split
    · split
      · simp [View.reject, View.write, Table.get?_set_self]
      · split
        · simp [View.accept, View.write, View.offer, Table.get?_set_self]
        · simp [View.reject, View.write, View.offer, Table.get?_set_self]
    · exact idle

/-- One group after the other visits all events. -/
theorem servesAll_visits (proceed : s.failurePolicy = .proceed) (name : s.defaultSource ≠ "")
    (sink : Sink) : ∀ (rs : List Request) {p : Session}, (∀ r ∈ rs, r.ForDefault s) →
      p.state.calls.get? id = none → p.state.line s.defaultSource = [] →
        ∃ q, ServesAll s sink id rs p q ∧
          q.view = (rs.flatMap Request.events).foldl (View.visit s sink) p.view
  | [], p, _, _, _ => ⟨p, .nil, rfl⟩
  | r :: rs, p, all, free, idle => by
    obtain ⟨p', first, view⟩ := serves_visits proceed name sink (all r (by simp)) free idle
    have free' : p'.state.calls.get? id = none := by
      obtain ⟨_, _, ends⟩ := first
      exact next?_eq_none.mp ends.gone
    have idle' : p'.state.line s.defaultSource = [] := by
      rw [State.line_eq] at idle ⊢
      have := idle_visits (s := s) sink r.events (v := p.view) idle
      rwa [← view] at this
    obtain ⟨q, rest, view'⟩ :=
      servesAll_visits proceed name sink rs (fun r' h => all r' (by simp [h])) free' idle'
    refine ⟨q, .cons first rest, ?_⟩
    rw [view', view, List.flatMap_cons, List.foldl_append]

/-! ## Behind others in line -/

/-- A call that is not the first in line does not set to work. -/
theorem not_ends_waiting {call : Call} (at_ : p.state.calls.get? id = some call)
    (phase : call.phase = .inLine) (behind : (p.state.line call.walk.source).head? ≠ some id) :
    ¬Ends s sink id p q := by
  have next := next?_of_get? sink at_
  rw [Call.next, phase] at next
  intro ends
  cases ends with
  | stop gone => exact absurd (gone.symm.trans next) (by simp)
  | step next' take _ =>
    obtain rfl := Option.some.inj (next.symm.trans next')
    simp [Session.take, step, at_, phase, behind] at take

/-- Nobody is served behind a call that takes no steps. -/
theorem idle_of_serves (o : Orderly p.state) (name : s.defaultSource ≠ "") {r : Request}
    (f : r.ForDefault s) (free : p.state.calls.get? id = none) (serves : Serves s sink id r p q) :
    p.state.line s.defaultSource = [] := by
  obtain ⟨p₁, arrives, ends⟩ := serves
  have arrive := take_arrive (s := s) free f.nonempty (f.named name)
  obtain rfl := Option.some.inj (arrive.symm.trans arrives)
  rw [f.source] at ends
  by_contra busy
  obtain ⟨a, before, line⟩ := List.exists_cons_of_ne_nil busy
  have other : a ≠ id := by
    rintro rfl
    obtain ⟨call, at_, -⟩ := o.mem_line.mp (line ▸ List.mem_cons_self : a ∈ p.state.line _)
    exact absurd (free.symm.trans at_) (by simp)
  obtain ⟨stream, opened⟩ : ∃ stream, p.state.streams.get? s.defaultSource = some stream := by
    rw [State.line_eq] at busy
    cases hs : p.state.streams.get? s.defaultSource with
    | none => rw [hs] at busy; exact absurd rfl busy
    | some stream => exact ⟨stream, rfl⟩
  have at₁ : (p.state.calls.set id ⟨.start s.defaultSource r.events, .arrived⟩).get? id =
      some ⟨.start s.defaultSource r.events, .arrived⟩ := Table.get?_set_self _ _ _
  have known : p.state.streams.contains s.defaultSource = true := by
    rw [Table.contains, opened]
    rfl
  obtain ⟨p', stands⟩ := stands_arrived (s := s) sink (p := { p with state := { p.state with
    counts := p.state.counts.receive r
    calls := p.state.calls.set id ⟨.start s.defaultSource r.events, .arrived⟩ } }) at₁ (.inl known)
  refine not_ends_waiting stands.call rfl ?_ ((stands.ends q).mp ends)
  have opened' : p'.state.streams.get? s.defaultSource =
      some { stream with line := stream.line ++ [id] } :=
    stands.opened.trans (congrArg (fun found : Option Stream =>
      some { found.getD .new with line := (found.getD .new).line ++ [id] }) opened)
  have line' : p'.state.line s.defaultSource = a :: (before ++ [id]) := by
    rw [line_of_get? opened', ← line_of_get? opened, line]
    rfl
  intro first
  exact other (Option.some.inj ((congrArg List.head? line').symm.trans first))

/-! ## Any cutting -/

/-- **However events are cut into groups** for the default stream, and however each group is sent:
what the pipeline is handed and what it takes, the streams and the counts, the sum of what the
caller is told to be processed, and whether it is told of nothing but success, are the same. Where
nobody is in line all groups are served. -/
theorem cutting_of_run {h : History} (run : (machine s).Run h p.state)
    (proceed : s.failurePolicy = .proceed) (name : s.defaultSource ≠ "") (sink : Sink)
    (free : p.state.calls.get? id = none) {rs rs' : List Request}
    (all : ∀ r ∈ rs, r.ForDefault s) (all' : ∀ r ∈ rs', r.ForDefault s)
    (same : rs.flatMap Request.events = rs'.flatMap Request.events) :
    (∀ q q', ServesAll s sink id rs p q → ServesAll s sink id rs' p q' → q.view = q'.view) ∧
      (p.state.line s.defaultSource = [] → ∃ q, ServesAll s sink id rs p q) := by
  have visits : ∀ {rs q}, (∀ r ∈ rs, r.ForDefault s) → ServesAll s sink id rs p q →
      q.view = (rs.flatMap Request.events).foldl (View.visit s sink) p.view := by
    intro rs q all serves
    cases rs with
    | nil =>
      cases serves with
      | nil => rfl
    | cons r rs =>
      have idle : p.state.line s.defaultSource = [] := by
        cases serves with
        | cons first _ => exact idle_of_serves (orderly_of_run run) name (all r (by simp)) free first
      obtain ⟨q', serves', view⟩ := servesAll_visits proceed name sink (r :: rs) all free idle
      rw [serves.unique serves', view]
  refine ⟨fun q q' serves serves' => ?_, fun idle => ?_⟩
  · rw [visits all serves, visits all' serves', same]
  · obtain ⟨q, serves, -⟩ := servesAll_visits proceed name sink rs all free idle
    exact ⟨q, serves⟩

namespace Sample

/-- Nothing has come in yet. -/
def session : Session := ⟨.start, [], [], []⟩

/-- The pipeline refuses the second event it is handed. -/
def refusing : Sink := fun offers => if offers.length = 2 then .failed .closed else .taken

/-- Four events, the second of which is not in order. -/
def cut : List Request :=
  [.batch ⟨"d", [change 5 "c", change 4 "u", change 6 "u"], .empty⟩, .single (change 7 "u")]

def cut' : List Request :=
  [.single (change 5 "c"), .group [change 4 "u", change 6 "u", change 7 "u"]]

theorem forDefault_cut : ∀ r ∈ cut, r.ForDefault settings :=
  List.forall_mem_cons.mpr ⟨⟨by decide, rfl⟩, List.forall_mem_singleton.mpr ⟨by decide, rfl⟩⟩

theorem forDefault_cut' : ∀ r ∈ cut', r.ForDefault settings :=
  List.forall_mem_cons.mpr ⟨⟨by decide, rfl⟩, List.forall_mem_singleton.mpr ⟨by decide, rfl⟩⟩

end Sample

open Sample in
/-- The sample: both ways two events are processed and two are rejected. -/
theorem cutting_sample : ∃ q q', ServesAll settings refusing 0 cut session q ∧
    ServesAll settings refusing 0 cut' session q' ∧ q.view = q'.view ∧
    q.view.processed = 2 ∧ q.view.rejected = 2 := by
  obtain ⟨q, serves, view⟩ : ∃ q, ServesAll settings refusing 0 cut session q ∧ q.view = _ :=
    servesAll_visits rfl (by decide) refusing cut forDefault_cut rfl rfl
  obtain ⟨q', serves', -⟩ : ∃ q, ServesAll settings refusing 0 cut' session q ∧ q.view = _ :=
    servesAll_visits rfl (by decide) refusing cut' forDefault_cut' rfl rfl
  have agree := (cutting_of_run (p := session) .start rfl (by decide) refusing rfl forDefault_cut
    forDefault_cut' rfl).1 q q' serves serves'
  refine ⟨q, q', serves, serves', agree, ?_, ?_⟩
  · rw [view]
    decide +kernel
  · rw [view]
    decide +kernel

end ChangeRelay.Dispatch
