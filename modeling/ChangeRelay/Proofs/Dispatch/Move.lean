import ChangeRelay.Dispatch.Step
import ChangeRelay.Proofs.Dispatch.Walk
import ChangeRelay.Proofs.Run

/-!
# What a step of a dispatcher changes

A step is taken by one call, and all it changes in the tables is that call and the stream of the
call's source. `Move` lists the steps with what each of them leaves of the two (`Left`), and `After`
says that everything else is as before.

* **`step_move`**: every step is a move, and what it leaves is what its move says.
* **`Move.step`**: every move can be taken.
* `arrive_counts` to `work_counts`: what a step counts.
* `machine`: the dispatcher as a machine that serves calls.

Nothing behind this module opens the definition of `step`.
-/

namespace ChangeRelay.Dispatch

/-! ## Moves -/

/-- The call that takes a step. -/
def Label.id : Label → CallId
  | .arrive id _ => id
  | .lookup id => id
  | .join id => id
  | .proceed id => id
  | .answer id _ => id
  | .drop id => id

/-- The request of a call that comes in. -/
def Label.request? : Label → Option Request
  | .arrive _ request => some request
  | _ => none

/-- Who is woken when a call leaves a line. -/
def wakes (line : List CallId) (id : CallId) : List Effect :=
  if line.head? = some id then (line.erase id).head?.toList.map .wake else []

namespace Halted

/-- What is left of a call whose walk has stopped. -/
def call? (h : Halted) : Option Call :=
  match h.halt with
  | .offer event => some ⟨h.walk, .offering event⟩
  | .done => none

/-- Its stream then; a call at its end leaves the line. -/
def stream (h : Halted) (id : CallId) (last? : Option UInt64) (stream : Stream) : Stream :=
  match h.halt with
  | .offer _ => ⟨last?, stream.line⟩
  | .done => ⟨last?, stream.line.erase id⟩

def effects (h : Halted) (id : CallId) (line : List CallId) : List Effect :=
  (h.rejections.map fun r => .log (r.line h.walk.source)) ++
    match h.halt with
    | .offer event => [.offer id h.walk.source event]
    | .done => wakes line id ++ [.reply id h.walk.tally.reply]

end Halted

/-- The call at the head of a line works: it sets to work, or has the pipeline's verdict. Its walk
stops at `h`, and `last?` is the last number of its stream then. -/
inductive Works (s : Settings) (st : State) (id : CallId) (call : Call) :
    Label → Option UInt64 → Halted → Prop
  | proceed (phase : call.phase = .inLine)
      (first : (st.line call.walk.source).head? = some id) :
      Works s st id call (.proceed id) (st.last? call.walk.source)
        (call.walk.resume s (st.last? call.walk.source))
  | answer {event : Event} (verdict : Pipeline.Verdict) (phase : call.phase = .offering event) :
      Works s st id call (.answer id verdict)
        (call.walk.settle s (st.last? call.walk.source) event verdict).1
        (call.walk.settle s (st.last? call.walk.source) event verdict).2

/-- What a step leaves of its call and of the stream of the call's source. -/
structure Left where
  source : String
  call? : Option Call
  stream? : Option Stream

/-- The steps, with what each leaves and does to the world around. -/
inductive Move (s : Settings) (st : State) : Label → Left → List Effect → Prop
  | empty {id : CallId} {r : Request} (free : st.calls.get? id = none) (none : r.events = []) :
      Move s st (.arrive id r) ⟨r.source s, .none, st.streams.get? (r.source s)⟩
        (emptyLines r ++ [.reply id emptyReply])
  | sourceless {id : CallId} {r : Request} (free : st.calls.get? id = none)
      (some : r.events ≠ []) (lacks : r.lacksSource = true) :
      Move s st (.arrive id r) ⟨r.source s, .none, st.streams.get? (r.source s)⟩
        [.log ⟨.warn, "batch rejected: empty source_id",
            [("events", decimal r.events.length)]⟩,
          .reply id (refusal .emptySource)]
  | arrive {id : CallId} {r : Request} (free : st.calls.get? id = none)
      (some : r.events ≠ []) (named : r.lacksSource = false) :
      Move s st (.arrive id r)
        ⟨r.source s, .some ⟨.start (r.source s) r.events, .arrived⟩,
          st.streams.get? (r.source s)⟩
        (arrivalLines r)
  | find {id : CallId} {call : Call} (at_ : st.calls.get? id = some call)
      (phase : call.phase = .arrived)
      (room : call.walk.source ∉ st.streams.keys → st.streams.size < s.maxStreams) :
      Move s st (.lookup id)
        ⟨call.walk.source, some { call with phase := .found },
          some ((st.streams.get? call.walk.source).getD .new)⟩ []
  | refuse {id : CallId} {call : Call} (at_ : st.calls.get? id = some call)
      (phase : call.phase = .arrived) (new : st.streams.get? call.walk.source = none)
      (full : s.maxStreams ≤ st.streams.size) :
      Move s st (.lookup id) ⟨call.walk.source, none, none⟩
        [.log ⟨.warn, "batch rejected",
            [("source_id", call.walk.source), ("events", decimal call.walk.tally.total),
              ("err", (Invalid.sourceLimit call.walk.source s.maxStreams).message)]⟩,
          .reply id (refusal (.sourceLimit call.walk.source s.maxStreams))]
  | join {id : CallId} {call : Call} (at_ : st.calls.get? id = some call)
      (phase : call.phase = .found) :
      Move s st (.join id)
        ⟨call.walk.source, some { call with phase := .inLine },
          (st.streams.get? call.walk.source).map fun stream =>
            { stream with line := stream.line ++ [id] }⟩ []
  | work {id : CallId} {call : Call} {l : Label} {last? : Option UInt64} {h : Halted}
      (at_ : st.calls.get? id = some call) (works : Works s st id call l last? h) :
      Move s st l
        ⟨call.walk.source, h.call?, (st.streams.get? call.walk.source).map (h.stream id last?)⟩
        (h.effects id (st.line call.walk.source))
  | drop {id : CallId} {call : Call} (at_ : st.calls.get? id = some call) :
      Move s st (.drop id)
        ⟨call.walk.source, none,
          (st.streams.get? call.walk.source).map fun stream =>
            { stream with line := stream.line.erase id }⟩
        (wakes (st.line call.walk.source) id)

/-- `st'` is `st` but for the call `id` and one stream, which are what `left` says; a new stream
comes behind the others. -/
structure After (st : State) (id : CallId) (left : Left) (st' : State) : Prop where
  calls : ∀ id', st'.calls.get? id' = if id' = id then left.call? else st.calls.get? id'
  streams : ∀ x, st'.streams.get? x = if x = left.source then left.stream? else st.streams.get? x
  keys : st'.streams.keys =
    if left.stream?.isSome ∧ left.source ∉ st.streams.keys then st.streams.keys ++ [left.source]
    else st.streams.keys

/-! ## Looking at a state -/

theorem State.last?_eq (st : State) (x : String) :
    st.last? x = (st.streams.get? x).bind Stream.last? := rfl

theorem State.line_eq (st : State) (x : String) :
    st.line x = ((st.streams.get? x).map Stream.line).getD [] := by
  unfold State.line
  cases st.streams.get? x <;> rfl

theorem not_contains_iff {κ α : Type} [DecidableEq κ] (t : Table κ α) (k : κ) :
    t.contains k = false ↔ t.get? k = none := by
  simp [Table.contains]

theorem contains_iff_mem_keys {κ α : Type} [DecidableEq κ] (t : Table κ α) (k : κ) :
    t.contains k = true ↔ k ∈ t.keys := (t.mem_keys_iff k).symm

/-- Where no stream is opened the keys stay. -/
theorem After.keys_of_old {st st' : State} {left : Left}
    (h : st'.streams.keys = st.streams.keys)
    (old : left.stream?.isSome = true → (st.streams.get? left.source).isSome = true) :
    st'.streams.keys =
      if left.stream?.isSome ∧ left.source ∉ st.streams.keys then
        st.streams.keys ++ [left.source]
      else st.streams.keys := by
  rw [if_neg, h]
  rintro ⟨hs, hn⟩
  exact hn ((st.streams.mem_keys_iff _).mpr (old hs))

/-- The call `id` is written and the stream `x`, if there is one, is changed. -/
theorem After.of_modify {st st' : State} {id : CallId} {call? : Option Call} {x : String}
    {f : Stream → Stream}
    (calls : ∀ id', st'.calls.get? id' = if id' = id then call? else st.calls.get? id')
    (streams : st'.streams = st.streams.modify x f) :
    After st id ⟨x, call?, (st.streams.get? x).map f⟩ st' where
  calls := calls
  streams := fun y => by
    rw [streams, Table.get?_modify]
    by_cases hy : y = x
    · rw [if_pos hy, if_pos hy, hy]
    · rw [if_neg hy, if_neg hy]
  keys := After.keys_of_old (by rw [streams, Table.keys_modify]) (by simp)

/-- The call `id` is written and no stream is changed. -/
theorem After.of_calls {st st' : State} {id : CallId} {call? : Option Call} (x : String)
    (calls : ∀ id', st'.calls.get? id' = if id' = id then call? else st.calls.get? id')
    (streams : st'.streams = st.streams) : After st id ⟨x, call?, st.streams.get? x⟩ st' where
  calls := calls
  streams := fun y => by
    rw [streams]
    by_cases hy : y = x
    · rw [if_pos hy, hy]
    · rw [if_neg hy]
  keys := After.keys_of_old (by rw [streams]) fun h => h

theorem get?_calls_none {st : State} {id : CallId} (h : st.calls.get? id = none) (id' : CallId) :
    st.calls.get? id' = if id' = id then none else st.calls.get? id' := by
  by_cases e : id' = id
  · rw [if_pos e, e, h]
  · rw [if_neg e]

/-! ## Ending a call -/

theorem close_effects (st : State) (x : String) (id : CallId) :
    (st.close x id).2 = wakes (st.line x) id := rfl

theorem close_streams (st : State) (x : String) (id : CallId) :
    (st.close x id).1.streams =
      st.streams.modify x fun stream => { stream with line := (st.line x).erase id } := rfl

theorem close_calls (st : State) (x : String) (id id' : CallId) :
    (st.close x id).1.calls.get? id' = if id' = id then none else st.calls.get? id' :=
  Table.get?_erase st.calls id id'

theorem close_after (st : State) (x : String) (id : CallId) :
    After st id
      ⟨x, none, (st.streams.get? x).map fun stream => { stream with line := stream.line.erase id }⟩
      (st.close x id).1 := by
  have h := After.of_modify (close_calls st x id) (close_streams st x id)
  cases hx : st.streams.get? x with
  | none => rw [hx] at h; exact h
  | some stream =>
    rw [hx, State.line_eq, hx] at h
    exact h

/-! ## Walks that have stopped -/

theorem halted_effects (st : State) (id : CallId) (h : Halted) :
    (st.halted id h).2 = h.effects id (st.line h.walk.source) := by
  unfold State.halted Halted.effects
  cases h.halt with
  | offer event => rfl
  | done => simp only [close_effects, List.append_assoc]; rfl

theorem halted_calls (st : State) (id : CallId) (h : Halted) (id' : CallId) :
    (st.halted id h).1.calls.get? id' = if id' = id then h.call? else st.calls.get? id' := by
  unfold State.halted Halted.call?
  cases h.halt with
  | offer event => exact Table.get?_set st.calls id ⟨h.walk, .offering event⟩ id'
  | done => exact close_calls _ _ _ _

theorem halted_streams (st : State) (id : CallId) (h : Halted) :
    (st.halted id h).1.streams = match h.halt with
      | .offer _ => st.streams
      | .done => st.streams.modify h.walk.source fun stream =>
        { stream with line := (st.line h.walk.source).erase id } := by
  unfold State.halted
  cases h.halt <;> rfl

theorem halted_keys (st : State) (id : CallId) (h : Halted) :
    (st.halted id h).1.streams.keys = st.streams.keys := by
  rw [halted_streams]
  cases h.halt with
  | offer event => rfl
  | done => exact Table.keys_modify _ _ _

theorem halted_get? (st : State) (id : CallId) (h : Halted) (y : String) :
    (st.halted id h).1.streams.get? y =
      if y = h.walk.source then
        (st.streams.get? y).map fun stream => h.stream id stream.last? stream
      else st.streams.get? y := by
  rw [halted_streams]
  cases he : h.halt with
  | offer event =>
    by_cases hy : y = h.walk.source
    · simp only [if_pos hy, Halted.stream, he]
      cases st.streams.get? y <;> rfl
    · simp only [if_neg hy]
  | done =>
    rw [Table.get?_modify, State.line_eq]
    by_cases hy : y = h.walk.source
    · subst hy
      simp only [if_true, Halted.stream, he]
      cases st.streams.get? h.walk.source <;> rfl
    · simp only [if_neg hy]

/-- What the work of a call leaves, once its walk has stopped: `last?` is the last number of its
stream by then. -/
theorem halted_after {st st₀ : State} {id : CallId} {h : Halted} {last? : Option UInt64}
    (calls : st.calls = st₀.calls) (keys : st.streams.keys = st₀.streams.keys)
    (streams : ∀ y, st.streams.get? y =
      if y = h.walk.source then (st₀.streams.get? y).map fun stream => { stream with last? }
      else st₀.streams.get? y) :
    After st₀ id
      ⟨h.walk.source, h.call?, (st₀.streams.get? h.walk.source).map (h.stream id last?)⟩
      (st.halted id h).1 where
  calls := fun id' => by rw [halted_calls, calls]
  streams := fun y => by
    rw [halted_get?, streams]
    by_cases hy : y = h.walk.source
    · subst hy
      simp only [if_true, Option.map_map]
      congr 1
    · simp only [if_neg hy]
  keys := After.keys_of_old (by rw [halted_keys, keys]) (by simp)

/-! ## Steps are moves -/

theorem arrive_move (s : Settings) {st : State} {id : CallId} (r : Request)
    (free : st.calls.get? id = none) :
    ∃ left, Move s st (.arrive id r) left (st.arrive s id r).2 ∧
      After st id left (st.arrive s id r).1 := by
  unfold State.arrive
  by_cases hn : r.events = []
  · rw [if_pos (by rw [hn]; rfl)]
    exact ⟨_, .empty free hn, .of_calls _ (get?_calls_none free) rfl⟩
  · rw [if_neg (fun e => hn (List.length_eq_zero_iff.mp e))]
    cases hl : r.lacksSource with
    | true =>
      rw [if_pos rfl]
      exact ⟨_, .sourceless free hn hl, .of_calls _ (get?_calls_none free) rfl⟩
    | false =>
      rw [if_neg Bool.false_ne_true]
      exact ⟨_, .arrive free hn hl, .of_calls _ (fun id' => Table.get?_set _ _ _ _) rfl⟩

theorem lookup_move (s : Settings) {st : State} {id : CallId} {call : Call}
    (at_ : st.calls.get? id = some call) (phase : call.phase = .arrived) :
    ∃ left, Move s st (.lookup id) left (st.lookup s id call).2 ∧
      After st id left (st.lookup s id call).1 := by
  have found := Table.get?_set st.calls id { call with phase := .found }
  simp only [State.lookup]
  by_cases hc : st.streams.contains call.walk.source = true
  · rw [if_pos hc]
    obtain ⟨stream, hs⟩ := Option.isSome_iff_exists.mp hc
    have h : After st id ⟨call.walk.source, _, _⟩
        { st with calls := st.calls.set id { call with phase := .found } } :=
      .of_calls call.walk.source found rfl
    refine ⟨_, .find at_ phase (absurd ((contains_iff_mem_keys _ _).mp hc)), ?_⟩
    rw [hs] at h ⊢
    exact h
  · rw [if_neg hc]
    have hn := (not_contains_iff _ _).mp (Bool.not_eq_true _ ▸ hc)
    have hk : call.walk.source ∉ st.streams.keys := fun h =>
      hc ((contains_iff_mem_keys _ _).mpr h)
    by_cases hs : st.streams.size < s.maxStreams
    · rw [if_pos hs]
      refine ⟨_, .find at_ phase fun _ => hs, found, fun y => ?_, ?_⟩
      · rw [hn]
        exact Table.get?_set _ _ _ _
      · rw [if_pos ⟨rfl, hk⟩]
        exact (Table.keys_set _ _ _).trans (if_neg hk)
    · rw [if_neg hs]
      refine ⟨_, .refuse at_ phase hn (Nat.le_of_not_lt hs), ?_⟩
      rw [← hn]
      exact .of_calls _ (Table.get?_erase st.calls id) rfl

/-- The work of a call is a move: `st₁` is the state in which its walk stops. -/
theorem work_move {s : Settings} {st st₁ : State} {id : CallId} {call : Call} {l : Label}
    {last? : Option UInt64} {h : Halted} (at_ : st.calls.get? id = some call)
    (works : Works s st id call l last? h) (source : h.walk.source = call.walk.source)
    (calls : st₁.calls = st.calls) (keys : st₁.streams.keys = st.streams.keys)
    (streams : ∀ y, st₁.streams.get? y =
      if y = call.walk.source then (st.streams.get? y).map fun stream => { stream with last? }
      else st.streams.get? y) :
    ∃ left, Move s st l left (st₁.halted id h).2 ∧ After st id left (st₁.halted id h).1 := by
  have line : st₁.line call.walk.source = st.line call.walk.source := by
    rw [State.line_eq, State.line_eq, streams, if_pos rfl, Option.map_map]
    rfl
  rw [halted_effects, source, line]
  refine ⟨_, .work at_ works, ?_⟩
  rw [← source] at streams ⊢
  exact halted_after calls keys streams

theorem proceed_move (s : Settings) {st : State} {id : CallId} {call : Call}
    (at_ : st.calls.get? id = some call) (phase : call.phase = .inLine)
    (first : (st.line call.walk.source).head? = some id) :
    ∃ left, Move s st (.proceed id) left (st.proceed s id call).2 ∧
      After st id left (st.proceed s id call).1 := by
  refine work_move at_ (.proceed phase first) (resume_from _ _ _).source rfl rfl fun y => ?_
  by_cases hy : y = call.walk.source
  · subst hy
    rw [if_pos rfl, State.last?_eq]
    cases st.streams.get? call.walk.source <;> rfl
  · rw [if_neg hy]

theorem answer_move (s : Settings) {st : State} {id : CallId} {call : Call} {event : Event}
    (verdict : Pipeline.Verdict) (at_ : st.calls.get? id = some call)
    (phase : call.phase = .offering event) :
    ∃ left, Move s st (.answer id verdict) left (st.answer s id call event verdict).2 ∧
      After st id left (st.answer s id call event verdict).1 :=
  work_move at_ (.answer verdict phase) (settle_source _ _ _ _ _) rfl (Table.keys_modify _ _ _)
    fun _ => Table.get?_modify _ _ _ _

/-- **Every step is a move**, and leaves what its move says. -/
theorem step_move {s : Settings} {st st' : State} {l : Label} {es : List Effect}
    (h : step s st l = some (st', es)) : ∃ left, Move s st l left es ∧ After st l.id left st' := by
  cases l with
  | arrive id r =>
    simp only [step] at h
    split at h
    · exact absurd h (by simp)
    · next hc =>
      have := arrive_move s r ((not_contains_iff _ _).mp (by simpa using hc))
      rw [Option.some.inj h] at this
      exact this
  | lookup id =>
    simp only [step] at h
    split at h
    · next call at_ =>
      split at h
      · next phase =>
        have := lookup_move s at_ phase
        rw [Option.some.inj h] at this
        exact this
      · exact absurd h (by simp)
    · exact absurd h (by simp)
  | join id =>
    simp only [step] at h
    split at h
    · next call at_ =>
      split at h
      · next phase =>
        obtain ⟨rfl, rfl⟩ := Prod.mk.inj (Option.some.inj h)
        exact ⟨_, .join at_ phase, .of_modify (fun id' => Table.get?_set _ _ _ _) rfl⟩
      · exact absurd h (by simp)
    · exact absurd h (by simp)
  | proceed id =>
    simp only [step] at h
    split at h
    · next call at_ =>
      split at h
      · next hp =>
        have := proceed_move s at_ hp.1 hp.2
        rw [Option.some.inj h] at this
        exact this
      · exact absurd h (by simp)
    · exact absurd h (by simp)
  | answer id verdict =>
    simp only [step] at h
    split at h
    · next call at_ =>
      split at h
      · next event phase =>
        have := answer_move s verdict at_ phase
        rw [Option.some.inj h] at this
        exact this
      · exact absurd h (by simp)
    · exact absurd h (by simp)
  | drop id =>
    simp only [step] at h
    split at h
    · next call at_ =>
      obtain ⟨rfl, rfl⟩ := Prod.mk.inj (Option.some.inj h)
      exact ⟨_, .drop at_, close_after st call.walk.source id⟩
    · exact absurd h (by simp)

/-! ## Moves are steps -/

theorem not_mem_keys {st : State} {x : String} (h : st.streams.get? x = none) :
    x ∉ st.streams.keys := by
  rw [st.streams.mem_keys_iff, h]
  simp

/-- A label stands for one move at most. -/
theorem Move.unique {s : Settings} {st : State} {l : Label} {left left' : Left}
    {es es' : List Effect} (m : Move s st l left es) (m' : Move s st l left' es') :
    left = left' ∧ es = es' := by
  cases m with
  | empty free none =>
    cases m' with
    | empty => exact ⟨rfl, rfl⟩
    | sourceless _ some => exact absurd none some
    | arrive _ some => exact absurd none some
    | work at_ works => cases works
  | sourceless free some lacks =>
    cases m' with
    | empty _ none => exact absurd none some
    | sourceless => exact ⟨rfl, rfl⟩
    | arrive _ _ named => rw [lacks] at named; exact absurd named (by simp)
    | work at_ works => cases works
  | arrive free some named =>
    cases m' with
    | empty _ none => exact absurd none some
    | sourceless _ _ lacks => rw [lacks] at named; exact absurd named (by simp)
    | arrive => exact ⟨rfl, rfl⟩
    | work at_ works => cases works
  | find at_ phase room =>
    cases m' with
    | find at_' =>
      obtain rfl := Option.some.inj (at_.symm.trans at_')
      exact ⟨rfl, rfl⟩
    | refuse at_' _ new full =>
      obtain rfl := Option.some.inj (at_.symm.trans at_')
      exact absurd (room (not_mem_keys new)) (Nat.not_lt.mpr full)
    | work at_ works => cases works
  | refuse at_ phase new full =>
    cases m' with
    | find at_' _ room =>
      obtain rfl := Option.some.inj (at_.symm.trans at_')
      exact absurd (room (not_mem_keys new)) (Nat.not_lt.mpr full)
    | refuse at_' =>
      obtain rfl := Option.some.inj (at_.symm.trans at_')
      exact ⟨rfl, rfl⟩
    | work at_ works => cases works
  | join at_ phase =>
    cases m' with
    | join at_' =>
      obtain rfl := Option.some.inj (at_.symm.trans at_')
      exact ⟨rfl, rfl⟩
    | work at_ works => cases works
  | drop at_ =>
    cases m' with
    | drop at_' =>
      obtain rfl := Option.some.inj (at_.symm.trans at_')
      exact ⟨rfl, rfl⟩
    | work at_ works => cases works
  | work at_ works =>
    cases works with
    | proceed phase first =>
      cases m' with
      | work at_' works' =>
        cases works' with
        | proceed =>
          obtain rfl := Option.some.inj (at_.symm.trans at_')
          exact ⟨rfl, rfl⟩
    | answer verdict phase =>
      cases m' with
      | work at_' works' =>
        cases works' with
        | answer _ phase' =>
          obtain rfl := Option.some.inj (at_.symm.trans at_')
          rw [phase] at phase'
          obtain rfl := Phase.offering.inj phase'
          exact ⟨rfl, rfl⟩

theorem Move.isSome_step {s : Settings} {st : State} {l : Label} {left : Left}
    {es : List Effect} (m : Move s st l left es) : (step s st l).isSome = true := by
  cases m with
  | empty free _ => simp [step, (not_contains_iff _ _).mpr free]
  | sourceless free _ _ => simp [step, (not_contains_iff _ _).mpr free]
  | arrive free _ _ => simp [step, (not_contains_iff _ _).mpr free]
  | find at_ phase _ => simp [step, at_, phase]
  | refuse at_ phase _ _ => simp [step, at_, phase]
  | join at_ phase => simp [step, at_, phase]
  | drop at_ => simp [step, at_]
  | work at_ works =>
    cases works with
    | proceed phase first => simp [step, at_, phase, first]
    | answer verdict phase => simp [step, at_, phase]

/-- **Every move can be taken.** -/
theorem Move.step {s : Settings} {st : State} {l : Label} {left : Left} {es : List Effect}
    (m : Move s st l left es) :
    ∃ st', Dispatch.step s st l = some (st', es) ∧ After st l.id left st' := by
  obtain ⟨⟨st', es'⟩, h⟩ := Option.isSome_iff_exists.mp m.isSome_step
  obtain ⟨left', m', after⟩ := step_move h
  obtain ⟨rfl, rfl⟩ := m.unique m'
  exact ⟨st', h, after⟩

/-! ## What is counted -/

/-- More events are rejected. -/
def Counts.reject (c : Counts) (n : Nat) : Counts := { c with rejected := c.rejected + n }

/-- The totals after a step of a call at work, whose walk stops at `h`. -/
def Counts.work (c : Counts) (l : Label) (h : Halted) : Counts where
  batches := c.batches
  received := c.received
  processed := c.processed + match l with
    | .answer _ .taken => 1
    | _ => 0
  rejected := c.rejected + h.rejections.length

section

variable {s : Settings} {st st' : State} {id : CallId} {call : Call} {es : List Effect}

/-- The events of a call that comes in are received. Those of a call that names no source are
rejected with it. -/
theorem arrive_counts {r : Request} (h : step s st (.arrive id r) = some (st', es)) :
    st'.counts = (st.counts.receive r).reject (if r.lacksSource then r.events.length else 0) := by
  simp only [step] at h
  split at h
  · exact absurd h (by simp)
  · obtain rfl := (congrArg Prod.fst (Option.some.inj h)).symm
    unfold State.arrive
    by_cases none : r.events.length = 0
    · simp [none, Counts.reject]
    · cases lacks : r.lacksSource <;> simp [none, Counts.reject]

theorem find_counts (at_ : st.calls.get? id = some call)
    (room : call.walk.source ∉ st.streams.keys → st.streams.size < s.maxStreams)
    (h : step s st (.lookup id) = some (st', es)) : st'.counts = st.counts := by
  simp only [step, at_] at h
  split at h
  · obtain rfl := (congrArg Prod.fst (Option.some.inj h)).symm
    unfold State.lookup
    by_cases known : st.streams.contains call.walk.source = true
    · simp [known]
    · have new : call.walk.source ∉ st.streams.keys := fun mem =>
        known ((contains_iff_mem_keys _ _).mpr mem)
      simp [known, room new]
  · exact absurd h (by simp)

/-- The events of a call that finds no room are rejected with it. -/
theorem refuse_counts (at_ : st.calls.get? id = some call)
    (new : st.streams.get? call.walk.source = none) (full : s.maxStreams ≤ st.streams.size)
    (h : step s st (.lookup id) = some (st', es)) :
    st'.counts = st.counts.reject call.walk.tally.total := by
  simp only [step, at_] at h
  split at h
  · obtain rfl := (congrArg Prod.fst (Option.some.inj h)).symm
    unfold State.lookup
    simp [(not_contains_iff _ _).mpr new, Nat.not_lt.mpr full, Counts.reject]
  · exact absurd h (by simp)

theorem join_counts (h : step s st (.join id) = some (st', es)) : st'.counts = st.counts := by
  simp only [step] at h
  split at h
  · split at h
    · obtain rfl := (congrArg Prod.fst (Option.some.inj h)).symm
      rfl
    · exact absurd h (by simp)
  · exact absurd h (by simp)

theorem drop_counts (h : step s st (.drop id) = some (st', es)) : st'.counts = st.counts := by
  simp only [step] at h
  split at h
  · obtain rfl := (congrArg Prod.fst (Option.some.inj h)).symm
    rfl
  · exact absurd h (by simp)

theorem halted_counts (st : State) (id : CallId) (h : Halted) :
    (st.halted id h).1.counts = st.counts.reject h.rejections.length := by
  unfold State.halted
  cases h.halt <;> rfl

/-- An event that is taken is processed, and those that are rejected on the way are rejected. -/
theorem work_counts {l : Label} {last? : Option UInt64} {w : Halted}
    (at_ : st.calls.get? id = some call) (works : Works s st id call l last? w)
    (h : step s st l = some (st', es)) : st'.counts = st.counts.work l w := by
  cases works with
  | proceed phase first =>
    simp only [step, at_, phase, first, and_self, if_true] at h
    obtain rfl := (congrArg Prod.fst (Option.some.inj h)).symm
    exact halted_counts _ _ _
  | answer verdict phase =>
    simp only [step, at_, phase] at h
    obtain rfl := (congrArg Prod.fst (Option.some.inj h)).symm
    refine (halted_counts _ _ _).trans ?_
    cases verdict <;> rfl

end

/-! ## The machine -/

theorem contains_before {s : Settings} {st : State} {l : Label} {r : State × List Effect}
    (h : step s st l = some r) : st.calls.contains l.id = l.request?.isNone := by
  obtain ⟨st', es⟩ := r
  obtain ⟨left, m, -⟩ := step_move h
  cases m with
  | empty free _ => exact (not_contains_iff _ _).mpr free
  | sourceless free _ _ => exact (not_contains_iff _ _).mpr free
  | arrive free _ _ => exact (not_contains_iff _ _).mpr free
  | find at_ _ _ => simp [Label.id, Label.request?, Table.contains, at_]
  | refuse at_ _ _ _ => simp [Label.id, Label.request?, Table.contains, at_]
  | join at_ _ => simp [Label.id, Label.request?, Table.contains, at_]
  | drop at_ => simp [Label.id, Label.request?, Table.contains, at_]
  | work at_ works => cases works <;> simp [Label.id, Label.request?, Table.contains, at_]

/-- A call that is in progress does not come in. -/
theorem request?_eq_none {s : Settings} {st : State} {l : Label} {r : State × List Effect}
    {call : Call} (h : step s st l = some r) (at_ : st.calls.get? l.id = some call) :
    l.request? = none := by
  have := contains_before h
  rw [Table.contains, at_] at this
  exact Option.isNone_iff_eq_none.mp this.symm

theorem exists_call {s : Settings} {st : State} {l : Label} {r : State × List Effect}
    (h : step s st l = some r) (hr : l.request? = none) :
    ∃ call, st.calls.get? l.id = some call := by
  have := contains_before h
  rw [hr] at this
  exact Option.isSome_iff_exists.mp this

theorem contains_other {s : Settings} {st : State} {l : Label} {r : State × List Effect}
    {id : CallId} (h : step s st l = some r) (hid : id ≠ l.id) :
    r.1.calls.contains id = st.calls.contains id := by
  obtain ⟨left, -, after⟩ := step_move h
  rw [Table.contains, Table.contains, after.calls, if_neg hid]

/-- The dispatcher as a machine that serves calls. -/
def machine (s : Settings) : Machine State Label Effect Request where
  start := .start
  step := step s
  name := Label.id
  request? := Label.request?
  busy st id := st.calls.contains id
  busy_start _ := rfl
  busy_before := contains_before
  busy_other := contains_other

end ChangeRelay.Dispatch
