import ChangeRelay.Proofs.Dispatch.Move

/-!
# Calls in line

`Orderly` ties the two tables of a dispatcher together: the line of a source holds the calls that
wait for it or work on it, each once, and only the first of them works. So the stream of a source
changes only under the call at the head of its line.

* **`Orderly.step`**: every step keeps a dispatcher orderly, and so does every run
  (`orderly_of_run`).
* `Works.spec`: what a call at work does to its walk and to the last number of its stream.
* `Move.last?_eq`: nobody else changes that number.
-/

namespace ChangeRelay.Dispatch

/-- Whether a call of this phase stands in the line of its source. -/
def Phase.lined : Phase → Bool
  | .arrived => false
  | .found => false
  | .inLine => true
  | .offering _ => true

namespace Left

/-- The line of the stream that a step leaves. -/
def line (left : Left) : List CallId := (left.stream?.map Stream.line).getD []

/-- The last number of the stream that a step leaves. -/
def last? (left : Left) : Option UInt64 := left.stream?.bind Stream.last?

end Left

/-- The tables of a dispatcher agree. -/
structure Orderly (st : State) : Prop where
  /-- A call that has looked for its stream has one. -/
  opened : ∀ {id call}, st.calls.get? id = some call → call.phase ≠ .arrived →
    ∃ stream, st.streams.get? call.walk.source = some stream
  nodup : ∀ x, (st.line x).Nodup
  mem_line : ∀ {x id}, id ∈ st.line x ↔
    ∃ call, st.calls.get? id = some call ∧ call.walk.source = x ∧ call.phase.lined = true
  /-- A call at work is the first in its line. -/
  first : ∀ {id w event}, st.calls.get? id = some ⟨w, .offering event⟩ →
    (st.line w.source).head? = some id
  /-- It offers the next event of its walk, which can be accepted. -/
  offer : ∀ {id w event}, st.calls.get? id = some ⟨w, .offering event⟩ →
    ∃ e es, w.todo = e :: es ∧ examine w.source (st.last? w.source) e = .ok event

variable {s : Settings} {st st' : State} {l : Label} {left : Left} {es : List Effect}

/-! ## After a step -/

theorem After.line {id : CallId} (h : After st id left st') (x : String) :
    st'.line x = if x = left.source then left.line else st.line x := by
  rw [State.line_eq, h.streams]
  by_cases hx : x = left.source
  · rw [if_pos hx, if_pos hx, Left.line]
  · rw [if_neg hx, if_neg hx, State.line_eq]

theorem After.last? {id : CallId} (h : After st id left st') (x : String) :
    st'.last? x = if x = left.source then left.last? else st.last? x := by
  rw [State.last?_eq, h.streams]
  by_cases hx : x = left.source
  · rw [if_pos hx, if_pos hx, Left.last?]
  · rw [if_neg hx, if_neg hx, State.last?_eq]

theorem line_of_get? {x : String} {stream : Stream} (h : st.streams.get? x = some stream) :
    st.line x = stream.line := by
  rw [State.line_eq, h]
  rfl

theorem last?_of_get? {x : String} {stream : Stream} (h : st.streams.get? x = some stream) :
    st.last? x = stream.last? := by
  rw [State.last?_eq, h]
  rfl

/-! ## Calls at work -/

/-- A call that works is in progress, and the first in its line. -/
theorem Works.first (o : Orderly st) {id : CallId} {call : Call} {last? : Option UInt64}
    {h : Halted} (at_ : st.calls.get? id = some call) (w : Works s st id call l last? h) :
    (st.line call.walk.source).head? = some id := by
  cases w with
  | proceed phase first => exact first
  | answer verdict phase =>
    obtain ⟨walk, _⟩ := call
    simp only at phase
    subst phase
    exact o.first at_

theorem Works.phase_ne {id : CallId} {call : Call} {last? : Option UInt64} {h : Halted}
    (w : Works s st id call l last? h) : call.phase ≠ .arrived := by
  cases w with
  | proceed phase first => rw [phase]; exact fun e => absurd e (by simp)
  | answer verdict phase => rw [phase]; exact fun e => absurd e (by simp)

theorem Works.label_id {id : CallId} {call : Call} {last? : Option UInt64} {h : Halted}
    (w : Works s st id call l last? h) : l.id = id := by
  cases w <;> rfl

theorem Works.request?_eq {id : CallId} {call : Call} {last? : Option UInt64} {h : Halted}
    (w : Works s st id call l last? h) : l.request? = none := by
  cases w <;> rfl

/-- **What a call at work does**: its walk goes on from where it stands, with the last number of
the stream; or its event was taken, and it goes on from behind that event with the event's
number. -/
theorem Works.spec (o : Orderly st) {id : CallId} {call : Call} {last? : Option UInt64}
    {h : Halted} (at_ : st.calls.get? id = some call) (w : Works s st id call l last? h) :
    (h.From call.walk last? ∧ last? = st.last? call.walk.source ∧ l ≠ .answer id .taken) ∨
      ∃ event, l = .answer id .taken ∧ call.phase = .offering event ∧
        h.From call.walk.taken last? ∧ last? = some event.sequence := by
  cases w with
  | proceed phase first =>
    exact .inl ⟨resume_from _ _ _, rfl, fun e => absurd e (by simp)⟩
  | @answer event verdict phase =>
    cases verdict with
    | taken =>
      obtain ⟨hl, hf⟩ := settle_taken s (st.last? call.walk.source) call.walk event
      exact .inr ⟨event, rfl, phase, hl ▸ hf, hl⟩
    | failed fault =>
      obtain ⟨walk, _⟩ := call
      simp only at phase
      subst phase
      obtain ⟨e, es, hw, -⟩ := o.offer at_
      obtain ⟨hl, hf⟩ := settle_failed s (st.last? walk.source) event fault hw
      exact .inl ⟨hl ▸ hf, hl, fun e => absurd e (by simp)⟩

theorem Works.source (o : Orderly st) {id : CallId} {call : Call} {last? : Option UInt64}
    {h : Halted} (at_ : st.calls.get? id = some call) (w : Works s st id call l last? h) :
    h.walk.source = call.walk.source := by
  rcases w.spec o at_ with ⟨hf, -, -⟩ | ⟨_, -, -, hf, -⟩
  · exact hf.source
  · exact hf.source

/-! ## What a move leaves -/

/-- The call that takes a step is of the source whose stream the step may change. -/
theorem Move.source_old (m : Move s st l left es) {call : Call}
    (h : st.calls.get? l.id = some call) : call.walk.source = left.source := by
  cases m with
  | empty free _ => exact absurd (free.symm.trans h) (by simp)
  | sourceless free _ _ => exact absurd (free.symm.trans h) (by simp)
  | arrive free _ _ => exact absurd (free.symm.trans h) (by simp)
  | find at_ _ _ => rw [Option.some.inj (at_.symm.trans h)]
  | refuse at_ _ _ _ => rw [Option.some.inj (at_.symm.trans h)]
  | join at_ _ => rw [Option.some.inj (at_.symm.trans h)]
  | drop at_ => rw [Option.some.inj (at_.symm.trans h)]
  | work at_ works =>
    rw [works.label_id] at h
    rw [Option.some.inj (at_.symm.trans h)]

theorem Halted.call?_walk {h : Halted} {call : Call} (e : h.call? = some call) :
    call.walk = h.walk := by
  unfold Halted.call? at e
  split at e
  · obtain rfl := Option.some.inj e
    rfl
  · exact absurd e (by simp)

theorem Halted.call?_phase {h : Halted} {call : Call} (e : h.call? = some call) :
    ∃ event, call.phase = .offering event := by
  unfold Halted.call? at e
  split at e
  · next event _ =>
    obtain rfl := Option.some.inj e
    exact ⟨event, rfl⟩
  · exact absurd e (by simp)

theorem Move.source_new (o : Orderly st) (m : Move s st l left es) {call : Call}
    (h : left.call? = some call) : call.walk.source = left.source := by
  cases m with
  | empty _ _ => exact absurd h (by simp)
  | sourceless _ _ _ => exact absurd h (by simp)
  | arrive _ _ _ => obtain rfl := Option.some.inj h; rfl
  | find at_ _ _ => obtain rfl := Option.some.inj h; rfl
  | refuse _ _ _ _ => exact absurd h (by simp)
  | join at_ _ => obtain rfl := Option.some.inj h; rfl
  | drop _ => exact absurd h (by simp)
  | work at_ works => rw [Halted.call?_walk h]; exact works.source o at_

/-- What a step of the call `id` does to the line of its source. -/
inductive Shape (st : State) (id : CallId) (left : Left) : Prop
  /-- The call was not in the line and is not. -/
  | aside (line : left.line = st.line left.source) (out : id ∉ st.line left.source)
      (call : ∀ call, left.call? = some call → call.phase.lined = false)
  | join (line : left.line = st.line left.source ++ [id]) (out : id ∉ st.line left.source)
      (call : ∃ w, left.call? = some ⟨w, .inLine⟩)
  | leave (line : left.line = (st.line left.source).erase id) (call : left.call? = none)
  /-- The first in line works and stops with an event to offer. -/
  | offer {w : Walk} {event : Event} (head : (st.line left.source).head? = some id)
      (line : left.line = st.line left.source) (call : left.call? = some ⟨w, .offering event⟩)
      (next : ∃ e es, w.todo = e :: es ∧ examine w.source left.last? e = .ok event)
  /-- The first in line works and comes to its end. -/
  | done (head : (st.line left.source).head? = some id)
      (line : left.line = (st.line left.source).erase id) (call : left.call? = none)

theorem not_mem_line (o : Orderly st) {id : CallId} (x : String)
    (h : ∀ call, st.calls.get? id = some call → call.phase.lined = false) : id ∉ st.line x := by
  intro hm
  obtain ⟨call, hc, -, hl⟩ := o.mem_line.mp hm
  rw [h call hc] at hl
  exact absurd hl (by simp)

/-- Work leaves the line as it is, or the call at the head of it leaves. -/
theorem Works.shape (o : Orderly st) {id : CallId} {call : Call} {last? : Option UInt64}
    {h : Halted} (at_ : st.calls.get? id = some call) (w : Works s st id call l last? h) :
    Shape st id
      ⟨call.walk.source, h.call?, (st.streams.get? call.walk.source).map (h.stream id last?)⟩ := by
  obtain ⟨stream, hs⟩ := o.opened at_ w.phase_ne
  have hl := line_of_get? hs
  have head := w.first o at_
  cases he : h.halt with
  | offer event =>
    have hx : ∃ e es, h.walk.todo = e :: es ∧ examine h.walk.source last? e = .ok event := by
      rw [w.source o at_]
      rcases w.spec o at_ with ⟨hf, -, -⟩ | ⟨_, -, -, hf, -⟩
      · exact hf.offer event he
      · exact hf.offer event he
    have call : h.call? = some ⟨h.walk, .offering event⟩ := by simp [Halted.call?, he]
    refine .offer head ?_ call ?_
    · simp [Left.line, hs, Halted.stream, he, hl]
    · simpa [Left.last?, hs, Halted.stream, he] using hx
  | done =>
    refine .done head ?_ (by simp [Halted.call?, he])
    simp [Left.line, hs, Halted.stream, he, hl]

theorem Move.shape (o : Orderly st) (m : Move s st l left es) : Shape st l.id left := by
  cases m with
  | empty free _ =>
    refine .aside (State.line_eq _ _).symm (not_mem_line o _ fun call h => ?_)
      fun call h => absurd h (by simp)
    exact absurd (free.symm.trans h) (by simp)
  | sourceless free _ _ =>
    refine .aside (State.line_eq _ _).symm (not_mem_line o _ fun call h => ?_)
      fun call h => absurd h (by simp)
    exact absurd (free.symm.trans h) (by simp)
  | arrive free _ _ =>
    refine .aside (State.line_eq _ _).symm (not_mem_line o _ fun call h => ?_) fun call h => ?_
    · exact absurd (free.symm.trans h) (by simp)
    · obtain rfl := Option.some.inj h
      rfl
  | find at_ phase _ =>
    refine .aside ?_ (not_mem_line o _ fun call h => ?_) fun call h => ?_
    · rw [State.line_eq]
      simp only [Left.line]
      cases st.streams.get? _ <;> rfl
    · rw [← Option.some.inj (at_.symm.trans h), phase]
      rfl
    · obtain rfl := Option.some.inj h
      rfl
  | refuse at_ phase new _ =>
    refine .aside ?_ (not_mem_line o _ fun call h => ?_) fun call h => absurd h (by simp)
    · rw [State.line_eq, new]
      rfl
    · rw [← Option.some.inj (at_.symm.trans h), phase]
      rfl
  | join at_ phase =>
    obtain ⟨stream, hs⟩ := o.opened at_ (by rw [phase]; exact fun e => absurd e (by simp))
    refine .join ?_ (not_mem_line o _ fun call h => ?_) ⟨_, rfl⟩
    · simp [Left.line, hs, line_of_get? hs, Label.id]
    · rw [← Option.some.inj (at_.symm.trans h), phase]
      rfl
  | work at_ works =>
    rw [works.label_id]
    exact works.shape o at_
  | drop at_ =>
    refine .leave ?_ rfl
    simp only [Left.line]
    rw [State.line_eq]
    cases st.streams.get? _ <;> simp [Label.id]

/-- The last number that work leaves in a stream. -/
theorem left_last? (h : Halted) (id : CallId) (last? : Option UInt64) {x : String}
    {stream : Stream} (hs : st.streams.get? x = some stream) :
    Left.last? ⟨x, h.call?, (st.streams.get? x).map (h.stream id last?)⟩ = last? := by
  simp only [Left.last?, hs, Option.map_some, Option.bind_some, Halted.stream]
  cases h.halt <;> rfl

/-- **The last number of a stream** stays what it is, unless an event was taken: then it is the
number of that event. -/
theorem Move.last?_spec (o : Orderly st) (m : Move s st l left es) :
    (left.last? = st.last? left.source ∧ ∀ id, l ≠ .answer id .taken) ∨
      ∃ walk event, l = .answer l.id .taken ∧
        st.calls.get? l.id = some ⟨walk, .offering event⟩ ∧ left.source = walk.source ∧
        left.last? = some event.sequence := by
  cases m with
  | empty _ _ => exact .inl ⟨rfl, fun _ e => absurd e (by simp)⟩
  | sourceless _ _ _ => exact .inl ⟨rfl, fun _ e => absurd e (by simp)⟩
  | arrive _ _ _ => exact .inl ⟨rfl, fun _ e => absurd e (by simp)⟩
  | @find _ call _ _ _ =>
    refine .inl ⟨?_, fun _ e => absurd e (by simp)⟩
    simp only [Left.last?, State.last?_eq]
    cases st.streams.get? call.walk.source <;> rfl
  | refuse _ _ new _ =>
    refine .inl ⟨?_, fun _ e => absurd e (by simp)⟩
    simp [Left.last?, State.last?_eq, new]
  | @join _ call _ _ =>
    refine .inl ⟨?_, fun _ e => absurd e (by simp)⟩
    simp only [Left.last?, State.last?_eq]
    cases st.streams.get? call.walk.source <;> rfl
  | @drop _ call _ =>
    refine .inl ⟨?_, fun _ e => absurd e (by simp)⟩
    simp only [Left.last?, State.last?_eq]
    cases st.streams.get? call.walk.source <;> rfl
  | @work id call l last? h at_ works =>
    obtain ⟨stream, hs⟩ := o.opened at_ works.phase_ne
    have hl := left_last? h id last? hs
    rw [hl, works.label_id]
    rcases works.spec o at_ with ⟨-, hlast, hn⟩ | ⟨event, hlab, phase, -, hlast⟩
    · refine .inl ⟨hlast, fun id' e => hn ?_⟩
      obtain rfl : l.id = id' := by rw [e]; rfl
      rwa [works.label_id] at e
    · obtain ⟨walk, _⟩ := call
      simp only at phase
      subst phase
      exact .inr ⟨walk, event, hlab, at_, rfl, hlast⟩

/-- **A stream's number changes only under the call at the head of its line.** -/
theorem Move.last?_eq (o : Orderly st) (m : Move s st l left es) {id : CallId}
    (head : (st.line left.source).head? = some id) (hid : id ≠ l.id) :
    left.last? = st.last? left.source := by
  rcases m.last?_spec o with ⟨h, -⟩ | ⟨walk, event, -, at_, hx, -⟩
  · exact h
  · have := o.first at_
    rw [← hx, head] at this
    exact absurd (Option.some.inj this) hid

/-! ## Every step keeps a dispatcher orderly -/

theorem Shape.nodup (o : Orderly st) {id : CallId} (h : Shape st id left) : left.line.Nodup := by
  have hn := o.nodup left.source
  cases h with
  | aside line => exact line ▸ hn
  | join line out =>
    rw [line, List.nodup_append]
    refine ⟨hn, by simp, fun a ha b hb => ?_⟩
    rintro rfl
    exact out (List.mem_singleton.mp hb ▸ ha)
  | leave line => exact line ▸ hn.erase id
  | offer _ line => exact line ▸ hn
  | done _ line => exact line ▸ hn.erase id

/-- The call that takes the step is in the line it leaves iff its phase says so. -/
theorem Shape.mem_self (o : Orderly st) {id : CallId} (h : Shape st id left) :
    id ∈ left.line ↔ ∃ call, left.call? = some call ∧ call.phase.lined = true := by
  cases h with
  | aside line out call =>
    rw [line]
    refine ⟨fun hm => absurd hm out, ?_⟩
    rintro ⟨c, hc, hl⟩
    rw [call c hc] at hl
    exact absurd hl (by simp)
  | join line _ call =>
    obtain ⟨w, hw⟩ := call
    rw [line]
    exact iff_of_true (by simp) ⟨_, hw, rfl⟩
  | leave line call =>
    rw [line, call]
    exact iff_of_false (o.nodup _).not_mem_erase (by simp)
  | offer head line call =>
    rw [line]
    exact iff_of_true (List.mem_of_head? head) ⟨_, call, rfl⟩
  | done head line call =>
    rw [line, call]
    exact iff_of_false (o.nodup _).not_mem_erase (by simp)

/-- The others stay where they are. -/
theorem Shape.mem_other {id id' : CallId} (h : Shape st id left) (hid : id' ≠ id) :
    id' ∈ left.line ↔ id' ∈ st.line left.source := by
  cases h with
  | aside line => rw [line]
  | join line => rw [line]; simp [hid]
  | leave line => rw [line, List.mem_erase_of_ne hid]
  | offer _ line => rw [line]
  | done _ line => rw [line, List.mem_erase_of_ne hid]

theorem head?_erase_of_ne {line : List CallId} {id id' : CallId} (h : line.head? = some id')
    (hid : id' ≠ id) : (line.erase id).head? = some id' := by
  obtain ⟨rest, rfl⟩ := List.head?_eq_some_iff.mp h
  rw [List.erase_cons_tail (by simpa using hid)]
  rfl

/-- Another call at the head of the line stays there. -/
theorem Shape.head_other {id id' : CallId} (h : Shape st id left) (hid : id' ≠ id)
    (head : (st.line left.source).head? = some id') : left.line.head? = some id' := by
  cases h with
  | aside line => rw [line, head]
  | join line => rw [line, List.head?_append, head]; rfl
  | leave line => rw [line]; exact head?_erase_of_ne head hid
  | offer _ line => rw [line, head]
  | done _ line => rw [line]; exact head?_erase_of_ne head hid

theorem Shape.head_self {id : CallId} (h : Shape st id left) {w : Walk} {event : Event}
    (hc : left.call? = some ⟨w, .offering event⟩) : left.line.head? = some id ∧
      ∃ e es, w.todo = e :: es ∧ examine w.source left.last? e = .ok event := by
  cases h with
  | aside _ _ call => exact absurd (call _ hc) (by simp [Phase.lined])
  | join _ _ call =>
    obtain ⟨w', hw⟩ := call
    exact absurd (hw.symm.trans hc) (by simp)
  | leave _ call => exact absurd (call.symm.trans hc) (by simp)
  | offer head line call next =>
    obtain ⟨rfl, h⟩ := Call.mk.inj (Option.some.inj (call.symm.trans hc))
    obtain rfl := Phase.offering.inj h
    exact ⟨line ▸ head, next⟩
  | done _ _ call => exact absurd (call.symm.trans hc) (by simp)

/-- A stream is never taken away from a call that has found it. -/
theorem Move.opened (o : Orderly st) (m : Move s st l left es) {call : Call}
    (hc : left.call? = some call) (phase : call.phase ≠ .arrived) :
    ∃ stream, left.stream? = some stream := by
  cases m with
  | empty _ _ => exact absurd hc (by simp)
  | sourceless _ _ _ => exact absurd hc (by simp)
  | arrive _ _ _ =>
    obtain rfl := Option.some.inj hc
    exact absurd rfl phase
  | find _ _ _ => exact ⟨_, rfl⟩
  | refuse _ _ _ _ => exact absurd hc (by simp)
  | join at_ h =>
    obtain ⟨stream, hs⟩ := o.opened at_ (by rw [h]; exact fun e => absurd e (by simp))
    exact ⟨_, by simp only [hs, Option.map_some]; rfl⟩
  | drop _ => exact absurd hc (by simp)
  | work at_ works =>
    obtain ⟨stream, hs⟩ := o.opened at_ works.phase_ne
    exact ⟨_, by simp only [hs, Option.map_some]; rfl⟩

theorem Move.stream_kept (m : Move s st l left es)
    (h : (st.streams.get? left.source).isSome = true) : left.stream?.isSome = true := by
  cases m with
  | empty _ _ => exact h
  | sourceless _ _ _ => exact h
  | arrive _ _ _ => exact h
  | find _ _ _ => rfl
  | refuse _ _ new _ => rw [new] at h; exact absurd h (by simp)
  | join _ _ => simpa using h
  | work _ _ => simpa using h
  | drop _ => simpa using h

/-- **Every step keeps a dispatcher orderly.** -/
theorem Orderly.step (o : Orderly st) (h : step s st l = some (st', es)) : Orderly st' := by
  obtain ⟨left, m, after⟩ := step_move h
  have shape := m.shape o
  -- Another call of the source that the step is about, before and after.
  have other : ∀ {id call}, id ≠ l.id → st'.calls.get? id = some call →
      st.calls.get? id = some call := fun hid hc => by
    rw [after.calls, if_neg hid] at hc
    exact hc
  have self : ∀ {call}, st'.calls.get? l.id = some call → left.call? = some call := fun hc => by
    rw [after.calls, if_pos rfl] at hc
    exact hc
  constructor
  case opened =>
    intro id call hc phase
    rw [after.streams]
    by_cases hid : id = l.id
    · subst hid
      rw [if_pos (m.source_new o (self hc))]
      exact m.opened o (self hc) phase
    · obtain ⟨stream, hs⟩ := o.opened (other hid hc) phase
      by_cases hx : call.walk.source = left.source
      · rw [if_pos hx]
        exact Option.isSome_iff_exists.mp (m.stream_kept (by rw [← hx, hs]; rfl))
      · rw [if_neg hx]
        exact ⟨stream, hs⟩
  case nodup =>
    intro x
    rw [after.line]
    by_cases hx : x = left.source
    · rw [if_pos hx]
      exact shape.nodup o
    · rw [if_neg hx]
      exact o.nodup x
  case mem_line =>
    intro x id
    rw [after.line, after.calls]
    by_cases hid : id = l.id
    · rw [if_pos hid]
      subst hid
      by_cases hx : x = left.source
      · rw [if_pos hx, shape.mem_self o]
        refine exists_congr fun call => and_congr_right fun hc => ?_
        rw [m.source_new o hc]
        exact (and_iff_right hx.symm).symm
      · rw [if_neg hx]
        refine iff_of_false (fun hm => ?_) ?_
        · obtain ⟨call, hc, hs, -⟩ := o.mem_line.mp hm
          exact hx (hs.symm.trans (m.source_old hc))
        · rintro ⟨call, hc, hs, -⟩
          exact hx (hs.symm.trans (m.source_new o hc))
    · rw [if_neg hid]
      by_cases hx : x = left.source
      · rw [if_pos hx, shape.mem_other hid, hx]
        exact o.mem_line
      · rw [if_neg hx]
        exact o.mem_line
  case first =>
    intro id w event hc
    rw [after.line]
    by_cases hid : id = l.id
    · subst hid
      rw [if_pos (m.source_new o (self hc))]
      exact (shape.head_self (self hc)).1
    · have head := o.first (other hid hc)
      by_cases hx : w.source = left.source
      · rw [if_pos hx]
        rw [hx] at head
        exact shape.head_other hid head
      · rw [if_neg hx]
        exact head
  case offer =>
    intro id w event hc
    rw [after.last?]
    by_cases hid : id = l.id
    · subst hid
      rw [if_pos (m.source_new o (self hc))]
      exact (shape.head_self (self hc)).2
    · have next := o.offer (other hid hc)
      by_cases hx : w.source = left.source
      · have head := o.first (other hid hc)
        rw [hx] at head
        rw [if_pos hx, m.last?_eq o head hid, ← hx]
        exact next
      · rw [if_neg hx]
        exact next

theorem orderly_start : Orderly .start := by
  constructor <;> simp [State.start, State.line, State.last?]

/-- **Every run leads to an orderly dispatcher.** -/
theorem orderly_of_run {ms : List (Moment State Label Effect)} (run : (machine s).Run ms st) :
    Orderly st := by
  induction run with
  | start => exact orderly_start
  | next run h ih => exact ih.step h

/-! ## Room for streams -/

theorem size_eq (t : Table String Stream) : t.size = t.keys.length := by
  simp [Table.size, Table.keys]

/-- A stream is opened only where there is room for it. -/
theorem Move.room (m : Move s st l left es) (opened : left.stream?.isSome = true)
    (new : left.source ∉ st.streams.keys) : st.streams.size < s.maxStreams := by
  have none : st.streams.get? left.source = none := by
    rwa [st.streams.mem_keys_iff, Option.not_isSome_iff_eq_none] at new
  cases m with
  | empty _ _ => exact absurd (none ▸ opened) (by simp)
  | sourceless _ _ _ => exact absurd (none ▸ opened) (by simp)
  | arrive _ _ _ => exact absurd (none ▸ opened) (by simp)
  | find _ _ room => exact room new
  | refuse _ _ _ _ => exact absurd opened (by simp)
  | join _ _ => simp [none] at opened
  | work _ _ => simp [none] at opened
  | drop _ => simp [none] at opened

/-- **There are never more streams than may be opened.** -/
theorem size_le_of_run {ms : List (Moment State Label Effect)} (run : (machine s).Run ms st) :
    st.streams.size ≤ s.maxStreams := by
  induction run with
  | start => exact Nat.zero_le _
  | next run h ih =>
    obtain ⟨left, m, after⟩ := step_move h
    rw [size_eq, after.keys]
    split
    · next new =>
      have := m.room new.1 new.2
      rw [size_eq] at this
      rw [List.length_append, List.length_singleton]
      exact this
    · rwa [← size_eq]

end ChangeRelay.Dispatch
