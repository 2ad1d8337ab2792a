import ChangeRelay.Proofs.Dispatch.Cutting
import Mathlib.Data.List.Dedup
import Mathlib.Data.List.Perm.Subperm

/-!
# Sources are independent

Streams are kept apart: a call reads and writes the stream of its source and no other, and what the
streams have in common is the limit on their number. So as long as the sources that are named fit,
and the pipeline answers by what it was handed for the same source, nothing that is done for one
source is seen at another.

* `Move.alike`: a step is the same wherever its call and the stream of its source are.
* **`ends_alike`**: a call comes to the same end wherever the stream of its source is the same.
* **`ends_apart`**: the end of a call is not seen at another source.
* **`independent_of_room`**: requests on one source are served as if there were no others.
-/

namespace ChangeRelay.Dispatch

/-- A pipeline that answers by what it was handed for the same source. -/
def Sink.PerSource (sink : Sink) : Prop :=
  ∀ {x : String} {event : Event} {offers offers' : List (String × Event)},
    (offers.filter fun o => o.1 = x) = (offers'.filter fun o => o.1 = x) →
      sink (offers ++ [(x, event)]) = sink (offers' ++ [(x, event)])

/-- The source whose stream a request uses; it uses none without events, or if it lacks a source. -/
def Request.named? (s : Settings) (r : Request) : Option String :=
  if r.events = [] ∨ r.lacksSource = true then none else some (r.source s)

/-- The sources named in requests, each once. -/
def sources (s : Settings) (rs : List Request) : List String :=
  (rs.filterMap (Request.named? s)).dedup

/-- The requests on one source. -/
def requestsOn (s : Settings) (x : String) (rs : List Request) : List Request :=
  rs.filter fun r => r.source s = x

/-- The replies to the requests on one source. -/
def repliesOn (s : Settings) (x : String) (rs : List Request) (replies : List DispatchReply) :
    List DispatchReply :=
  ((rs.zip replies).filter fun a => a.1.source s = x).map Prod.snd

/-- Nothing has been done. -/
def Session.start : Session := ⟨.start, [], [], []⟩

/-- At `q'` is what can be seen of the source `x` at `q`, and nothing else. -/
structure Alike (x : String) (q q' : Session) : Prop where
  stream : q'.state.streams.get? x = q.state.streams.get? x
  offers : q'.offers = q.offers.filter fun o => o.1 = x
  taken : q'.taken = q.taken.filter fun o => o.1 = x

/-- A dispatcher with streams for `names` only, that nobody but the call `id` uses. -/
structure Fit (names : List String) (id : CallId) (p : Session) : Prop where
  orderly : Orderly p.state
  keys : ∀ y ∈ p.state.streams.keys, y ∈ names
  named : ∀ call, p.state.calls.get? id = some call → call.walk.source ∈ names
  alone : ∀ c, c ≠ id → p.state.calls.get? c = none

variable {s : Settings} {sink : Sink} {id : CallId} {p p' p₁ q q' : Session} {l : Label}
variable {st st' st₀ : State} {left : Left} {es : List Effect} {x : String}
variable {names : List String} {r : Request} {rs : List Request}

/-! ## Steps -/

/-- What becomes of a session with a step. -/
def Session.after (p : Session) (l : Label) (st : State) (es : List Effect) : Session where
  state := st
  offers := p.offers ++ es.filterMap Effect.offer?
  taken := p.taken ++ ((taken? ⟨0, l, p.state, es⟩).map Taken.content).toList
  replies := p.replies ++ es.filterMap Effect.reply?

theorem take_eq_some : p.take s l = some p₁ ↔
    ∃ st' es, step s p.state l = some (st', es) ∧ p.after l st' es = p₁ := by
  unfold Session.take
  rw [Option.map_eq_some_iff]
  constructor
  · rintro ⟨⟨st', es⟩, hs, rfl⟩
    exact ⟨st', es, hs, rfl⟩
  · rintro ⟨st', es, hs, rfl⟩
    exact ⟨(st', es), hs, rfl⟩

/-- Where a call looks for its stream there is room for it. -/
def Room (s : Settings) (st : State) (id : CallId) : Prop :=
  ∀ call, st.calls.get? id = some call →
    call.walk.source ∉ st.streams.keys → st.streams.size < s.maxStreams

theorem Works.alike {call : Call} {last? : Option UInt64} {h : Halted}
    (w : Works s st id call l last? h)
    (stream : st₀.streams.get? call.walk.source = st.streams.get? call.walk.source) :
    Works s st₀ id call l last? h := by
  have last : st.last? call.walk.source = st₀.last? call.walk.source := by
    rw [State.last?_eq, State.last?_eq, stream]
  have line : st.line call.walk.source = st₀.line call.walk.source := by
    rw [State.line_eq, State.line_eq, stream]
  cases w with
  | proceed phase first =>
    rw [last]
    exact .proceed phase (line ▸ first)
  | answer verdict phase =>
    rw [last]
    exact .answer verdict phase

/-- **A step is the same** wherever its call and the stream of its source are the same, if there is
room. -/
theorem Move.alike (m : Move s st l left es) (call : st₀.calls.get? l.id = st.calls.get? l.id)
    (stream : st₀.streams.get? left.source = st.streams.get? left.source)
    (room : Room s st l.id) (room₀ : Room s st₀ l.id) : Move s st₀ l left es := by
  cases m with
  | empty free none => exact stream ▸ .empty (call.trans free) none
  | sourceless free some lacks => exact stream ▸ .sourceless (call.trans free) some lacks
  | arrive free some named => exact stream ▸ .arrive (call.trans free) some named
  | find at_ phase _ =>
    have at₀ := call.trans at_
    exact stream ▸ .find at₀ phase (room₀ _ at₀)
  | @refuse id c at_ phase new full =>
    have none : c.walk.source ∉ st.streams.keys := not_mem_keys new
    exact absurd (room c at_ none) (Nat.not_lt.mpr full)
  | join at_ phase => exact stream ▸ .join (call.trans at_) phase
  | @work id c _ last? h at_ works =>
    have line : st.line c.walk.source = st₀.line c.walk.source := by
      rw [State.line_eq, State.line_eq, stream]
    rw [works.label_id] at call
    rw [line, ← stream]
    exact .work (call.trans at_) (works.alike stream)
  | @drop id c at_ =>
    have line : st.line c.walk.source = st₀.line c.walk.source := by
      rw [State.line_eq, State.line_eq, stream]
    rw [line, ← stream]
    exact .drop (call.trans at_)

/-- The source of a step is that of the request which comes in. -/
theorem Move.source_request (m : Move s st l left es) (hr : l.request? = some r) :
    left.source = r.source s := by
  cases m with
  | empty _ _ => rw [← Option.some.inj hr]
  | sourceless _ _ _ => rw [← Option.some.inj hr]
  | arrive _ _ _ => rw [← Option.some.inj hr]
  | find _ _ _ => exact absurd hr (by simp [Label.request?])
  | refuse _ _ _ _ => exact absurd hr (by simp [Label.request?])
  | join _ _ => exact absurd hr (by simp [Label.request?])
  | work _ works => exact absurd (works.request?_eq.symm.trans hr) (by simp)
  | drop _ => exact absurd hr (by simp [Label.request?])

/-- A call that is there after its step was there before, or its request named its source. -/
theorem Move.named (o : Orderly st) (m : Move s st l left es) {call : Call}
    (h : left.call? = some call) :
    (∃ r, l.request? = some r ∧ r.named? s = some call.walk.source) ∨
      ∃ old, st.calls.get? l.id = some old ∧ old.walk.source = call.walk.source := by
  have source := m.source_new o h
  cases m with
  | empty _ _ => exact absurd h (by simp)
  | sourceless _ _ _ => exact absurd h (by simp)
  | @arrive _ r _ some named =>
    refine .inl ⟨r, rfl, ?_⟩
    rw [source, Request.named?, named, if_neg (not_or.mpr ⟨some, Bool.false_ne_true⟩)]
  | find at_ _ _ => exact .inr ⟨_, at_, source.symm⟩
  | refuse _ _ _ _ => exact absurd h (by simp)
  | join at_ _ => exact .inr ⟨_, at_, source.symm⟩
  | work at_ works => exact .inr ⟨_, works.label_id ▸ at_, source.symm⟩
  | drop at_ => exact .inr ⟨_, at_, source.symm⟩

/-- A stream is opened for a call that looks for it. -/
theorem Move.opens (m : Move s st l left es) (opened : left.stream?.isSome = true)
    (new : left.source ∉ st.streams.keys) :
    ∃ call, st.calls.get? l.id = some call ∧ call.walk.source = left.source := by
  have none : st.streams.get? left.source = none := by
    rwa [st.streams.mem_keys_iff, Option.not_isSome_iff_eq_none] at new
  cases m with
  | empty _ _ => exact absurd (none ▸ opened) (by simp)
  | sourceless _ _ _ => exact absurd (none ▸ opened) (by simp)
  | arrive _ _ _ => exact absurd (none ▸ opened) (by simp)
  | find at_ _ _ => exact ⟨_, at_, rfl⟩
  | refuse _ _ _ _ => exact absurd opened (by simp)
  | join at_ _ => exact ⟨_, at_, rfl⟩
  | work at_ works => exact ⟨_, works.label_id ▸ at_, rfl⟩
  | drop at_ => exact ⟨_, at_, rfl⟩

/-- The event that the pipeline has from a call. -/
def Call.event? (call : Call) : Option Event :=
  match call.phase with
  | .offering event => some event
  | _ => none

theorem event?_call? (h : Halted) : h.call?.bind Call.event? = h.halt.event? := by
  unfold Halted.call?
  cases h.halt <;> rfl

/-- **What the pipeline is handed** at a step is the event that its call has on offer then. -/
theorem Move.offers (o : Orderly st) (m : Move s st l left es) :
    es.filterMap Effect.offer? =
      (left.call?.bind Call.event?).toList.map fun event => (left.source, event) := by
  cases m with
  | @empty _ r _ _ => cases r <;> rfl
  | sourceless _ _ _ => rfl
  | @arrive _ r _ _ _ => cases r <;> rfl
  | find _ _ _ => rfl
  | refuse _ _ _ _ => rfl
  | join _ _ => rfl
  | @work id call l last? h at_ works =>
    rw [offers_effects, works.source o at_]
    simp only [event?_call?]
  | @drop id call _ =>
    unfold wakes
    split
    · simp [List.filterMap_map, Effect.offer?]
    · rfl

/-- What the pipeline takes at a step is of the source of its call. -/
theorem Move.taken_source (m : Move s st l left es) {a : String × Event}
    (ha : a ∈ ((taken? ⟨0, l, st, es⟩).map Taken.content).toList) : a.1 = left.source := by
  rw [Option.mem_toList, Option.map_eq_some_iff] at ha
  obtain ⟨t, ht, rfl⟩ := ha
  obtain ⟨id, w, event, rfl, at_, rfl⟩ := taken?_spec ht
  exact m.source_old at_

theorem Move.offers_source (o : Orderly st) (m : Move s st l left es) {a : String × Event}
    (ha : a ∈ es.filterMap Effect.offer?) : a.1 = left.source := by
  rw [m.offers o, List.mem_map] at ha
  obtain ⟨event, -, rfl⟩ := ha
  rfl

/-! ## One dispatcher -/

theorem Fit.room (fit : Fit names id p) (few : names.length ≤ s.maxStreams) :
    Room s p.state id := by
  intro call at_ new
  have nodup : (call.walk.source :: p.state.streams.keys).Nodup :=
    List.nodup_cons.mpr ⟨new, p.state.streams.nodup⟩
  have within : call.walk.source :: p.state.streams.keys ⊆ names :=
    List.cons_subset.mpr ⟨fit.named call at_, fit.keys⟩
  have := (List.Nodup.subperm nodup within).length_le
  rw [List.length_cons] at this
  rw [size_eq]
  omega

/-- Where no call is in progress nobody is in line. -/
theorem Fit.idle (fit : Fit names id p) (free : p.state.calls.get? id = none) (y : String) :
    p.state.line y = [] := by
  refine List.eq_nil_iff_forall_not_mem.mpr fun c hc => ?_
  obtain ⟨call, at_, -⟩ := fit.orderly.mem_line.mp hc
  by_cases other : c = id
  · exact absurd (at_.symm.trans (other ▸ free)) (by simp)
  · exact absurd (at_.symm.trans (fit.alone c other)) (by simp)

theorem Fit.take (fit : Fit names id p) (hl : l.id = id)
    (named : ∀ r, l.request? = some r → ∀ y, r.named? s = some y → y ∈ names)
    (take : p.take s l = some p₁) : Fit names id p₁ := by
  obtain ⟨st', es, hs, rfl⟩ := take_eq_some.mp take
  obtain ⟨left, m, after⟩ := step_move hs
  constructor
  case orderly => exact fit.orderly.step hs
  case keys =>
    intro y hy
    rw [Session.after, after.keys] at hy
    split at hy
    · next opened =>
      rcases List.mem_append.mp hy with hy | hy
      · exact fit.keys y hy
      · obtain ⟨call, at_, source⟩ := m.opens opened.1 opened.2
        rw [List.mem_singleton.mp hy, ← source]
        exact fit.named call (hl ▸ at_)
    · exact fit.keys y hy
  case named =>
    intro call at_
    rw [Session.after, after.calls, if_pos hl.symm] at at_
    rcases m.named fit.orderly at_ with ⟨r, hr, name⟩ | ⟨old, at', source⟩
    · exact named r hr _ name
    · rw [← source]
      exact fit.named old (hl ▸ at')
  case alone =>
    intro c hc
    rw [Session.after, after.calls, if_neg (hl ▸ hc)]
    exact fit.alone c hc

/-- The next step is one of the call, which does not come in. -/
theorem next?_label {l : Label} (next : p.next? sink id = some l) :
    l.id = id ∧ l.request? = none := by
  obtain ⟨call, -, rfl⟩ := Option.map_eq_some_iff.mp next
  unfold Call.next
  cases call.phase <;> exact ⟨rfl, rfl⟩

theorem of_request?_none (old : l.request? = none) {P : Request → Prop} (r : Request)
    (hr : l.request? = some r) : P r :=
  absurd (old.symm.trans hr) (by simp)

theorem Fit.ends (fit : Fit names id p) (ends : Ends s sink id p q) : Fit names id q := by
  induction ends with
  | stop _ => exact fit
  | step next take _ ih =>
    obtain ⟨hl, old⟩ := next?_label next
    exact ih (fit.take hl (of_request?_none old) take)

/-- A dispatcher that has served a request is free for the next. -/
theorem Fit.serves (fit : Fit names id p) (serves : Serves s sink id r p q)
    (named : ∀ y, r.named? s = some y → y ∈ names) :
    Fit names id q ∧ q.state.calls.get? id = none := by
  obtain ⟨p₁, take, ends⟩ := serves
  have fit₁ := fit.take rfl (fun r' hr => Option.some.inj hr ▸ named) take
  exact ⟨fit₁.ends ends, next?_eq_none.mp ends.gone⟩

/-- It gives one reply. -/
theorem Fit.reply (fit : Fit names id p) (free : p.state.calls.get? id = none)
    (serves : Serves s sink id r p q) : ∃ reply, q.replies = p.replies ++ [reply] := by
  obtain ⟨q', reply, serves', replies⟩ := serves_of_idle sink r free (fit.idle free (r.source s))
  obtain rfl := ServesAll.unique (.cons serves .nil) (.cons serves' .nil)
  exact ⟨reply, replies⟩

/-- All requests are served. -/
theorem Fit.servesAll : ∀ {rs : List Request} {p : Session}, Fit names id p →
    p.state.calls.get? id = none → (∀ r ∈ rs, ∀ y, r.named? s = some y → y ∈ names) →
      ∃ q, ServesAll s sink id rs p q
  | [], p, _, _, _ => ⟨p, .nil⟩
  | r :: rs, p, fit, free, named => by
    obtain ⟨p₁, _, first, -⟩ := serves_of_idle sink r free (fit.idle free (r.source s))
    obtain ⟨fit₁, free₁⟩ := fit.serves first (named r (by simp))
    obtain ⟨q, rest⟩ := fit₁.servesAll free₁ fun r' h => named r' (List.mem_cons_of_mem r h)
    exact ⟨q, .cons first rest⟩

/-! ## Two dispatchers -/

/-- The call `id` is as far at `p'` as at `p`, on the source `x`. -/
structure InStep (x : String) (id : CallId) (p p' : Session) : Prop extends Alike x p p' where
  call : p'.state.calls.get? id = p.state.calls.get? id
  source : ∀ call, p.state.calls.get? id = some call → call.walk.source = x
  /-- The event on offer was handed over last. -/
  last : ∀ call event, p.state.calls.get? id = some call → call.event? = some event →
    ∃ before before', p.offers = before ++ [(x, event)] ∧ p'.offers = before' ++ [(x, event)]

theorem filter_same {as : List (String × Event)} (h : ∀ a ∈ as, a.1 = x) :
    as.filter (fun a => a.1 = x) = as :=
  List.filter_eq_self.mpr fun a ha => decide_eq_true (h a ha)

theorem filter_other {as : List (String × Event)} (h : ∀ a ∈ as, a.1 ≠ x) :
    as.filter (fun a => a.1 = x) = [] :=
  List.filter_eq_nil_iff.mpr fun a ha => by simpa using h a ha

/-- **A step of a call is taken wherever the stream of its source is the same**, and has the same
effects. -/
theorem InStep.take (i : InStep x id p p') (hl : l.id = id)
    (new : ∀ r, l.request? = some r → r.source s = x) (fit : Fit names id p)
    (fit' : Fit names id p') (few : names.length ≤ s.maxStreams) (take : p.take s l = some p₁) :
    ∃ p₁' replies, p'.take s l = some p₁' ∧ InStep x id p₁ p₁' ∧
      p₁.replies = p.replies ++ replies ∧ p₁'.replies = p'.replies ++ replies := by
  obtain ⟨st', es, hs, rfl⟩ := take_eq_some.mp take
  obtain ⟨left, m, after⟩ := step_move hs
  have o := fit.orderly
  subst hl
  have source : left.source = x := by
    cases hr : l.request? with
    | some r => rw [m.source_request hr, new r hr]
    | none =>
      obtain ⟨call, at_⟩ := exists_call hs hr
      rw [← m.source_old at_, i.source call at_]
  have m' := m.alike i.call (source ▸ i.stream) (fit.room few) (fit'.room few)
  obtain ⟨st₁', hs', after'⟩ := m'.step
  refine ⟨p'.after l st₁' es, _, take_eq_some.mpr ⟨st₁', es, hs', rfl⟩, ?_, rfl, rfl⟩
  have offered := filter_same fun a ha => (m.offers_source o ha).trans source
  have accepted := filter_same fun a ha => (m.taken_source ha).trans source
  constructor
  case toAlike =>
    constructor
    case stream =>
      simp only [Session.after]
      rw [after.streams, after'.streams, source, if_pos rfl, if_pos rfl]
    case offers =>
      simp only [Session.after]
      rw [List.filter_append, offered, i.offers]
    case taken =>
      simp only [Session.after]
      rw [List.filter_append, accepted, i.taken, taken?_content i.call]
  case call =>
    simp only [Session.after]
    rw [after.calls, after'.calls, if_pos rfl, if_pos rfl]
  case source =>
    intro call at_
    simp only [Session.after] at at_
    rw [after.calls, if_pos rfl] at at_
    rw [m.source_new o at_, source]
  case last =>
    intro call event at_ offer
    simp only [Session.after] at at_ ⊢
    rw [after.calls, if_pos rfl] at at_
    have handed : es.filterMap Effect.offer? = [(x, event)] := by
      rw [m.offers o, at_, Option.bind_some, offer, source]
      rfl
    rw [handed]
    exact ⟨_, _, rfl, rfl⟩

/-- The next step of a call is the same. -/
theorem InStep.next? (i : InStep x id p p') (per : sink.PerSource) :
    p'.next? sink id = p.next? sink id := by
  unfold Session.next?
  rw [i.call]
  cases at_ : p.state.calls.get? id with
  | none => rfl
  | some call =>
    simp only [Option.map_some]
    congr 1
    cases phase : call.phase with
    | offering event =>
      obtain ⟨before, before', h, h'⟩ := i.last call event at_ (by simp [Call.event?, phase])
      have same := i.offers
      rw [h, h', List.filter_append] at same
      have verdict : sink p'.offers = sink p.offers := by
        rw [h, h']
        refine per ?_
        have cut := congrArg (List.filter fun o : String × Event => o.1 = x) same
        simpa [List.filter_append, List.filter_filter] using cut
      rw [verdict]
    | _ => simp only [Call.next, phase]

/-- **A call comes to the same end** wherever the stream of its source is the same. -/
theorem ends_alike (per : sink.PerSource) (few : names.length ≤ s.maxStreams)
    (ends : Ends s sink id p q) (i : InStep x id p p') (fit : Fit names id p)
    (fit' : Fit names id p') : ∃ q' replies, Ends s sink id p' q' ∧ Alike x q q' ∧
      q.replies = p.replies ++ replies ∧ q'.replies = p'.replies ++ replies := by
  induction ends generalizing p' with
  | stop gone =>
    exact ⟨p', [], .stop ((i.next? per).trans gone), i.toAlike, by simp, by simp⟩
  | step next take _ ih =>
    obtain ⟨hl, old⟩ := next?_label next
    obtain ⟨p₁', replies, take', i₁, told, told'⟩ :=
      i.take hl (of_request?_none old) fit fit' few take
    obtain ⟨q', replies', ends', al, told₁, told₁'⟩ := ih i₁
      (fit.take hl (of_request?_none old) take) (fit'.take hl (of_request?_none old) take')
    refine ⟨q', replies ++ replies', .step ((i.next? per).trans next) take' ends', al, ?_, ?_⟩
    · rw [told₁, told, List.append_assoc]
    · rw [told₁', told', List.append_assoc]

/-- A step of another source is not seen. -/
theorem Alike.take (al : Alike x p p') (o : Orderly p.state)
    (old : ∀ call, p.state.calls.get? l.id = some call → call.walk.source ≠ x)
    (new : ∀ r, l.request? = some r → r.source s ≠ x) (take : p.take s l = some p₁) :
    Alike x p₁ p' ∧ ∀ call, p₁.state.calls.get? l.id = some call → call.walk.source ≠ x := by
  obtain ⟨st', es, hs, rfl⟩ := take_eq_some.mp take
  obtain ⟨left, m, after⟩ := step_move hs
  have source : left.source ≠ x := by
    cases hr : l.request? with
    | some r => rw [m.source_request hr]; exact new r hr
    | none =>
      obtain ⟨call, at_⟩ := exists_call hs hr
      rw [← m.source_old at_]
      exact old call at_
  have offered := filter_other fun a ha e => source ((m.offers_source o ha).symm.trans e)
  have accepted := filter_other fun a ha e => source ((m.taken_source ha).symm.trans e)
  refine ⟨⟨?_, ?_, ?_⟩, fun call at_ => ?_⟩
  · simp only [Session.after]
    rw [after.streams, if_neg source.symm, al.stream]
  · simp only [Session.after]
    rw [List.filter_append, offered, List.append_nil, al.offers]
  · simp only [Session.after]
    rw [List.filter_append, accepted, List.append_nil, al.taken]
  · simp only [Session.after] at at_
    rw [after.calls, if_pos rfl] at at_
    rw [m.source_new o at_]
    exact source

/-- **The end of a call is not seen at another source.** -/
theorem ends_apart (ends : Ends s sink id p q) (al : Alike x p p') (fit : Fit names id p)
    (other : ∀ call, p.state.calls.get? id = some call → call.walk.source ≠ x) :
    Alike x q p' := by
  induction ends with
  | stop _ => exact al
  | step next take _ ih =>
    obtain ⟨rfl, old⟩ := next?_label next
    obtain ⟨al₁, other₁⟩ := al.take fit.orderly other (of_request?_none old) take
    exact ih al₁ (fit.take rfl (of_request?_none old) take) other₁

/-! ## Requests -/

theorem Alike.inStep (al : Alike x p p') (free : p.state.calls.get? id = none)
    (free' : p'.state.calls.get? id = none) : InStep x id p p' where
  toAlike := al
  call := free'.trans free.symm
  source := fun call at_ => absurd (free.symm.trans at_) (by simp)
  last := fun call event at_ => absurd (free.symm.trans at_) (by simp)

/-- A request on the source is served in both. -/
theorem serves_alike (per : sink.PerSource) (few : names.length ≤ s.maxStreams)
    (serves : Serves s sink id r p q) (on : r.source s = x) (al : Alike x p p')
    (fit : Fit names id p) (fit' : Fit names id p') (free : p.state.calls.get? id = none)
    (free' : p'.state.calls.get? id = none) (named : ∀ y, r.named? s = some y → y ∈ names) :
    ∃ q' replies, Serves s sink id r p' q' ∧ Alike x q q' ∧
      q.replies = p.replies ++ replies ∧ q'.replies = p'.replies ++ replies := by
  obtain ⟨p₁, take, ends⟩ := serves
  have i := al.inStep free free'
  obtain ⟨p₁', replies, take', i₁, told, told'⟩ :=
    i.take rfl (fun r' hr => Option.some.inj hr ▸ on) fit fit' few take
  have fit₁ := fit.take rfl (fun r' hr => Option.some.inj hr ▸ named) take
  have fit₁' := fit'.take rfl (fun r' hr => Option.some.inj hr ▸ named) take'
  obtain ⟨q', replies', ends', al', told₁, told₁'⟩ := ends_alike per few ends i₁ fit₁ fit₁'
  refine ⟨q', replies ++ replies', ⟨p₁', take', ends'⟩, al', ?_, ?_⟩
  · rw [told₁, told, List.append_assoc]
  · rw [told₁', told', List.append_assoc]

/-- A request on another source is not seen. -/
theorem serves_apart (serves : Serves s sink id r p q) (other : r.source s ≠ x)
    (al : Alike x p p') (fit : Fit names id p) (free : p.state.calls.get? id = none)
    (named : ∀ y, r.named? s = some y → y ∈ names) : Alike x q p' := by
  obtain ⟨p₁, take, ends⟩ := serves
  obtain ⟨al₁, other₁⟩ := al.take (l := .arrive id r) fit.orderly
    (fun call at_ => absurd (free.symm.trans at_) (by simp))
    (fun r' hr => Option.some.inj hr ▸ other) take
  exact ends_apart ends al₁ (fit.take rfl (fun r' hr => Option.some.inj hr ▸ named) take) other₁

/-- Of one request after the other those on the source are served in both. -/
theorem servesAll_alike (per : sink.PerSource) (few : names.length ≤ s.maxStreams) :
    ∀ {rs : List Request} {p p' q : Session}, ServesAll s sink id rs p q → Alike x p p' →
      Fit names id p → Fit names id p' → p.state.calls.get? id = none →
      p'.state.calls.get? id = none → (∀ r ∈ rs, ∀ y, r.named? s = some y → y ∈ names) →
      ∃ q' replies, ServesAll s sink id (requestsOn s x rs) p' q' ∧ Alike x q q' ∧
        q.replies = p.replies ++ replies ∧ replies.length = rs.length ∧
        q'.replies = p'.replies ++ repliesOn s x rs replies
  | [], _, p', _, .nil, al, _, _, _, _, _ => ⟨p', [], .nil, al, by simp, rfl, by simp [repliesOn]⟩
  | r :: rs, p, p', q, .cons first rest, al, fit, fit', free, free', named => by
    have name := named r (by simp)
    have names' := fun r' h => named r' (List.mem_cons_of_mem r h)
    obtain ⟨fit₁, free₁⟩ := fit.serves first name
    obtain ⟨reply, told⟩ := fit.reply free first
    by_cases on : r.source s = x
    · obtain ⟨p₁', replies, first', al₁, told₁, told₁'⟩ :=
        serves_alike per few first on al fit fit' free free' name
      obtain rfl : replies = [reply] := List.append_cancel_left (told₁.symm.trans told)
      obtain ⟨fit₁', free₁'⟩ := fit'.serves first' name
      obtain ⟨q', replies, rest', al', told₂, length, told₂'⟩ :=
        servesAll_alike per few rest al₁ fit₁ fit₁' free₁ free₁' names'
      refine ⟨q', reply :: replies, ?_, al', ?_, by simp [length], ?_⟩
      · rw [requestsOn, List.filter_cons, if_pos (decide_eq_true on)]
        exact .cons first' rest'
      · rw [told₂, told, List.append_assoc, List.singleton_append]
      · rw [told₂', told₁', List.append_assoc, List.singleton_append]
        simp [repliesOn, on]
    · have al₁ := serves_apart first on al fit free name
      obtain ⟨q', replies, rest', al', told₂, length, told₂'⟩ :=
        servesAll_alike per few rest al₁ fit₁ fit' free₁ free' names'
      refine ⟨q', reply :: replies, ?_, al', ?_, by simp [length], ?_⟩
      · rw [requestsOn, List.filter_cons, if_neg (by simpa using on)]
        exact rest'
      · rw [told₂, told, List.append_assoc, List.singleton_append]
      · rw [told₂']
        simp [repliesOn, on]

/-! ## Independence -/

theorem fit_start (id : CallId) (names : List String) : Fit names id .start where
  orderly := orderly_start
  keys := by simp [Session.start, State.start, Table.keys, Table.empty]
  named := by simp [Session.start, State.start]
  alone := fun _ _ => rfl

theorem alike_start (x : String) : Alike x .start .start := ⟨rfl, rfl, rfl⟩

theorem mem_sources (hr : r ∈ rs) {y : String} (name : r.named? s = some y) : y ∈ sources s rs :=
  List.mem_dedup.mpr (List.mem_filterMap.mpr ⟨r, hr, name⟩)

/-- What is seen of the source `x` when all of `rs` are served, at `q`, is what is seen when only
the requests on `x` are, at `q'`. -/
structure Independent (s : Settings) (x : String) (rs : List Request) (q q' : Session) : Prop where
  /-- Every request has one reply. -/
  answered : q.replies.length = rs.length
  replies : q'.replies = repliesOn s x rs q.replies
  offers : q'.offers = q.offers.filter fun o => o.1 = x
  taken : q'.taken = q.taken.filter fun o => o.1 = x
  last : q'.state.last? x = q.state.last? x

/-- **Sources are independent.** Where no more sources are named than streams may be opened, and the
pipeline answers by what it was handed for the same source, all requests are served, and those on one
source as if there were no others. -/
theorem independent_of_room (id : CallId) (per : sink.PerSource) (rs : List Request)
    (few : (sources s rs).length ≤ s.maxStreams) :
    (∃ q, ServesAll s sink id rs .start q) ∧
    (∀ x, ∃ q, ServesAll s sink id (requestsOn s x rs) .start q) ∧
    ∀ x q q', ServesAll s sink id rs .start q →
      ServesAll s sink id (requestsOn s x rs) .start q' → Independent s x rs q q' := by
  have named : ∀ r ∈ rs, ∀ y, r.named? s = some y → y ∈ sources s rs := fun r hr y =>
    mem_sources hr
  have fit := fit_start id (sources s rs)
  refine ⟨fit.servesAll rfl named, fun x => ?_, fun x q q' serves serves' => ?_⟩
  · exact fit.servesAll rfl fun r hr => named r (List.mem_of_mem_filter hr)
  · obtain ⟨q₁, replies, serves₁, al, told, length, told'⟩ :=
      servesAll_alike (x := x) per few serves (alike_start x) fit fit rfl rfl named
    obtain rfl := serves₁.unique serves'
    obtain rfl : q.replies = replies := told
    refine ⟨length, told', al.offers, al.taken, ?_⟩
    rw [State.last?_eq, State.last?_eq, al.stream]

namespace Sample

/-- The pipeline refuses the second event of every source. -/
def refusingEach : Sink := fun offers =>
  match offers.getLast? with
  | some (x, _) => if (offers.filter fun o => o.1 = x).length = 2 then .failed .closed else .taken
  | none => .taken

theorem refusingEach_perSource : refusingEach.PerSource := by
  intro x event offers offers' same
  simp only [refusingEach, List.getLast?_concat, List.filter_append, same]

/-- Calls on "a" with others between them, and as many sources as there may be. -/
def mixed : List Request :=
  [.batch ⟨"a", [change 5 "c", change 4 "u"], .empty⟩, .single (change 9 "c"),
    .batch ⟨"", [change 1 "c"], .empty⟩, .batch ⟨"b", [], .empty⟩, .group [change 2 "u", change 9 "u"],
    .batch ⟨"a", [change 6 "u", change 7 "d"], .empty⟩]

end Sample

open Sample in
theorem independent_sample : ∃ q q', ServesAll settings refusingEach 0 mixed .start q ∧
    ServesAll settings refusingEach 0 (requestsOn settings "a" mixed) .start q' ∧
    (requestsOn settings "a" mixed).length = 2 ∧ Independent settings "a" mixed q q' := by
  obtain ⟨⟨q, serves⟩, alone, same⟩ :=
    independent_of_room 0 refusingEach_perSource mixed (by decide +kernel : _ ≤ settings.maxStreams)
  obtain ⟨q', serves'⟩ := alone "a"
  exact ⟨q, q', serves, serves', by decide +kernel, same "a" q q' serves serves'⟩

end ChangeRelay.Dispatch
