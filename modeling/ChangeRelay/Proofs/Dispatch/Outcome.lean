import ChangeRelay.Proofs.Dispatch.Fates
import ChangeRelay.Proofs.Dispatch.Serial

/-!
# The outcome of a call

A call that is answered has offered, and the pipeline has taken of it, what the reference `fates`
says of its events, from the last number of its source when its turn came and the verdicts that
the pipeline gave it. `Course` says so of a call at work: of what it has decided so far. This is the
loop of `run` with `forward_one` in it, from the lock to the reply.

* `Course.begin`, `Course.goOn`, `Course.next`: every step keeps a call to its course.
* **`answers_of_run`**: what every call is answered.
-/

namespace ChangeRelay.Dispatch

/-! ## What a history shows of a call -/

/-- The pipeline's verdict, if a step brings one. -/
def Label.verdict? : Label → Option Pipeline.Verdict
  | .answer _ verdict => some verdict
  | _ => none

/-- What the pipeline is handed. -/
def Effect.offer? : Effect → Option (String × Event)
  | .offer _ source event => some (source, event)
  | _ => none

/-- The verdicts on the events of a call, in order. -/
def verdictsOf (h : History) (n : Nat) : List Pipeline.Verdict :=
  (Moment.labelsOf h n).filterMap Label.verdict?

/-- What a call handed to the pipeline, in order. -/
def offersOf (h : History) (n : Nat) : List (String × Event) :=
  (Moment.effectsOf h n).filterMap Effect.offer?

/-- The turn of a call came when `last?` was the last number of its source. -/
def Began (h : History) (n : Nat) (x : String) (last? : Option UInt64) : Prop :=
  ∃ m ∈ h, turn? x m = some n ∧ m.before.last? x = last?

/-- What the reference says of the events of the call `n`. -/
def row (s : Settings) (h : History) (n : Nat) (r : Request) (last? : Option UInt64) : List Fate :=
  fates s.failurePolicy (r.source s) last? (verdictsOf h n) r.events

/-- The outcome of the call that is answered at the moment `m`: it came in with `r`, and `last?`
was the last number of its source when its turn came. -/
structure Outcome (s : Settings) (h : History) (m : Moment State Label Effect) (r : Request)
    (last? : Option UInt64) (reply : DispatchReply) : Prop where
  began : Began h m.call (r.source s) last?
  offers : offersOf h m.call = (offered (row s h m.call r last?)).map fun e => (r.source s, e)
  taken : (takenOf h m.call).map Taken.content =
    (accepted (row s h m.call r last?)).map fun e => (r.source s, e)
  /-- No event waits for a verdict. -/
  whole : ∀ us, fates s.failurePolicy (r.source s) last? (verdictsOf h m.call ++ us) r.events =
    row s h m.call r last?
  reply : Tells r.events.length (row s h m.call r last?) reply
  /-- The last number that the call leaves behind. -/
  number : ∀ st' es, step s m.before m.label = some (st', es) →
    st'.last? (r.source s) = (row s h m.call r last?).foldl Fate.number last?

/-- A call that is answered is turned away or has its outcome. -/
def Answers (s : Settings) (h : History) : Prop :=
  ∀ m ∈ h, ∀ id reply, .reply id reply ∈ m.effects →
    ∃ r, ((machine s).arrivals h)[m.call]? = some (id, r) ∧
      (TurnedAway s m r reply ∨ ∃ last?, Outcome s h m r last? reply)

/-- The event that a walk has stopped to offer. -/
def Halt.event? : Halt → Option Event
  | .offer event => some event
  | .done => none

/-- The call `n` on `x` has the fates `row` behind it, and its walk has stopped. -/
structure Course (s : Settings) (h : History) (st : State) (n : Nat) (x : String)
    (last? : Option UInt64) (events : List Wire.Event) (row : List Fate) (w : Walk) (halt : Halt) :
    Prop where
  began : Began h n x last?
  fates : ∀ us, fates s.failurePolicy x last? (verdictsOf h n ++ us) events =
    row ++ halt.ahead s.failurePolicy (st.last? x) w us
  tally : w.tally = row.foldl Tally.count (.start events.length)
  number : st.last? x = row.foldl Fate.number last?
  offers : offersOf h n = (offered row ++ halt.event?.toList).map fun e => (x, e)
  taken : (takenOf h n).map Taken.content = (accepted row).map fun e => (x, e)

variable {s : Settings} {st st' : State} {l : Label} {left : Left} {es : List Effect}
variable {h : History} {n : Nat} {x : String} {last? : Option UInt64} {events : List Wire.Event}

theorem verdictsOf_concat (h : History) (m : Moment State Label Effect) (n : Nat) :
    verdictsOf (h ++ [m]) n =
      verdictsOf h n ++ if m.call = n then m.label.verdict?.toList else [] := by
  unfold verdictsOf
  rw [Moment.labelsOf_concat, List.filterMap_append]
  by_cases hn : m.call = n
  · rw [if_pos hn, if_pos hn]
    cases hv : m.label.verdict? <;> simp [hv]
  · rw [if_neg hn, if_neg hn, List.filterMap_nil]

theorem offersOf_concat (h : History) (m : Moment State Label Effect) (n : Nat) :
    offersOf (h ++ [m]) n =
      offersOf h n ++ if m.call = n then m.effects.filterMap Effect.offer? else [] := by
  unfold offersOf
  rw [Moment.effectsOf_concat, List.filterMap_append]
  by_cases hn : m.call = n
  · rw [if_pos hn, if_pos hn]
  · rw [if_neg hn, if_neg hn, List.filterMap_nil]

section

variable {m : Moment State Label Effect}

theorem verdictsOf_self (hn : m.call = n) :
    verdictsOf (h ++ [m]) n = verdictsOf h n ++ m.label.verdict?.toList := by
  rw [verdictsOf_concat, if_pos hn]

theorem verdictsOf_other (hn : m.call ≠ n) : verdictsOf (h ++ [m]) n = verdictsOf h n := by
  rw [verdictsOf_concat, if_neg hn, List.append_nil]

theorem offersOf_self (hn : m.call = n) :
    offersOf (h ++ [m]) n = offersOf h n ++ m.effects.filterMap Effect.offer? := by
  rw [offersOf_concat, if_pos hn]

theorem offersOf_other (hn : m.call ≠ n) : offersOf (h ++ [m]) n = offersOf h n := by
  rw [offersOf_concat, if_neg hn, List.append_nil]

theorem takenOf_self (hn : m.call = n) :
    takenOf (h ++ [m]) n = takenOf h n ++ (taken? m).toList := by
  rw [takenOf_concat, if_pos hn]

end

theorem Began.concat (b : Began h n x last?) (m : Moment State Label Effect) :
    Began (h ++ [m]) n x last? := by
  obtain ⟨p, hp, turn, number⟩ := b
  exact ⟨p, List.mem_append_left _ hp, turn, number⟩

/-- A call that works hands over the event at which its walk stops. -/
theorem offers_effects (w : Halted) (id : CallId) (line : List CallId) :
    (w.effects id line).filterMap Effect.offer? =
      w.halt.event?.toList.map fun e => (w.walk.source, e) := by
  have lines : (w.rejections.map fun r => Effect.log (r.line w.walk.source)).filterMap
      Effect.offer? = [] := by
    simp [List.filterMap_map, Effect.offer?]
  have wakes : (wakes line id).filterMap Effect.offer? = [] := by
    unfold Dispatch.wakes
    split
    · simp [List.filterMap_map, Effect.offer?]
    · rfl
  unfold Halted.effects
  rw [List.filterMap_append, lines, List.nil_append]
  cases w.halt with
  | offer event => rfl
  | done =>
    rw [List.filterMap_append, wakes]
    rfl

/-! ## A call at work -/

theorem Halted.halt_of_call? {w : Halted} {walk : Walk} {event : Event}
    (h : w.call? = some ⟨walk, .offering event⟩) : w.walk = walk ∧ w.halt = .offer event := by
  unfold Halted.call? at h
  cases hw : w.halt with
  | done => rw [hw] at h; exact absurd h (by simp)
  | offer event' =>
    rw [hw] at h
    obtain ⟨rfl, same⟩ := Call.mk.inj (Option.some.inj h)
    exact ⟨rfl, congrArg _ (Phase.offering.inj same)⟩

theorem Halted.done_of_call? {w : Halted} (h : w.call? = none) : w.halt = .done := by
  unfold Halted.call? at h
  cases hw : w.halt with
  | done => rfl
  | offer event => rw [hw] at h; exact absurd h (by simp)

/-- What work leaves of the stream. -/
theorem Works.last?_after (o : Orderly st) {id : CallId} {call : Call} {w : Halted}
    (at_ : st.calls.get? id = some call) (works : Works s st id call l last? w)
    (after : After st id ⟨call.walk.source, w.call?,
      (st.streams.get? call.walk.source).map (w.stream id last?)⟩ st') :
    st'.last? call.walk.source = last? := by
  obtain ⟨stream, hs⟩ := o.opened at_ works.phase_ne
  rw [after.last?, if_pos rfl, left_last? w id last? hs]

/-- A call sets to work. -/
theorem Course.begin (run : (machine s).Run h st) {id : CallId} {call : Call} {w : Halted}
    (hs : step s st (.proceed id) = some (st', w.effects id (st.line call.walk.source)))
    (at_ : st.calls.get? id = some call) {r : Request} (f : Follows s h id call r)
    (works : Works s st id call (.proceed id) last? w)
    (after : After st id ⟨call.walk.source, w.call?,
      (st.streams.get? call.walk.source).map (w.stream id last?)⟩ st') :
    ∃ row, Course s (h ++ [next s h st (.proceed id) (w.effects id (st.line call.walk.source))])
      st' ((machine s).numberOf h id) (r.source s) (st.last? (r.source s)) r.events row w.walk
      w.halt := by
  have o := orderly_of_run run
  have source := works.source o at_
  have number := works.last?_after o at_ after
  have same : (next s h st (.proceed id) (w.effects id (st.line call.walk.source))).call =
      (machine s).numberOf h id := callOf_old hs at_
  cases works with
  | proceed phase first =>
    obtain ⟨row, refusals, fares⟩ := resume_fares s (st.last? call.walk.source) call.walk
    have waits : ∀ event, call.phase ≠ .offering event := by simp [phase]
    obtain ⟨r', waiting⟩ := waits_of_run run at_ waits
    have fresh := f.fresh waits
    rw [← f.source] at fresh ⊢
    refine ⟨row, ?_, ?_, ?_, ?_, ?_, ?_⟩
    · refine ⟨_, List.mem_append_right _ (List.mem_singleton_self _), ?_, rfl⟩
      rw [turn?_proceed rfl at_ rfl]
      exact congrArg some same
    · intro us
      have none : verdictsOf h ((machine s).numberOf h id) = [] := by
        rw [verdictsOf, waiting.labels, phase]
        rfl
      have ahead := fares.fates us
      rw [fresh] at ahead
      rw [verdictsOf_self same, none, number, fresh]
      exact ahead
    · rw [fares.tally, fresh]
      rfl
    · rw [number]
      exact fares.number
    · have none : offersOf h ((machine s).numberOf h id) = [] := by
        rw [offersOf, waiting.effects]
        cases r' <;> rfl
      rw [offersOf_self same, none, refusals.offered]
      exact (offers_effects _ id _).trans (by rw [source, List.nil_append])
    · rw [takenOf_concat_none rfl, takenOf_waiting run at_ waits, refusals.accepted]
      rfl

/-- The call at work has a verdict. -/
theorem Course.goOn (run : (machine s).Run h st) {id : CallId} {walk : Walk} {event : Event}
    {verdict : Pipeline.Verdict} {w : Halted}
    (hs : step s st (.answer id verdict) = some (st', w.effects id (st.line walk.source)))
    (at_ : st.calls.get? id = some ⟨walk, .offering event⟩)
    (works : Works s st id ⟨walk, .offering event⟩ (.answer id verdict) last? w)
    (after : After st id ⟨walk.source, w.call?,
      (st.streams.get? walk.source).map (w.stream id last?)⟩ st')
    {row : List Fate} {last₀? : Option UInt64}
    (c : Course s h st ((machine s).numberOf h id) walk.source last₀? events row walk
      (.offer event)) :
    ∃ row', Course s
      (h ++ [next s h st (.answer id verdict) (w.effects id (st.line walk.source))]) st'
      ((machine s).numberOf h id) walk.source last₀? events row' w.walk w.halt := by
  have o := orderly_of_run run
  have source := works.source o at_
  have number := works.last?_after o at_ after
  have same : (next s h st (.answer id verdict) (w.effects id (st.line walk.source))).call =
      (machine s).numberOf h id := callOf_old hs at_
  obtain ⟨e, es, todo, offer⟩ := o.offer at_
  cases works with
  | answer _ phase =>
    obtain rfl := Phase.offering.inj phase
    obtain ⟨refused, refusals, fares⟩ := settle_fares (s := s) todo offer verdict
    refine ⟨row ++ (.ofVerdict event verdict :: refused), c.began.concat _, ?_, ?_, ?_, ?_, ?_⟩
    · intro us
      have ahead := fares.fates us
      rw [verdictsOf_self same, List.append_assoc, c.fates, List.append_assoc, number]
      exact congrArg _ ahead
    · rw [fares.tally, c.tally, List.foldl_append]
    · rw [number, List.foldl_append, ← c.number]
      exact fares.number
    · have now : offered (.ofVerdict event verdict :: refused) = [event] := by
        rw [offered_cons, refusals.offered]
        cases verdict <;> rfl
      have more := offers_effects (walk.settle s (st.last? walk.source) event verdict).2 id
        (st.line walk.source)
      rw [source] at more
      rw [offersOf_self same, c.offers, offered_append, now]
      exact (congrArg _ more).trans List.map_append.symm
    · rw [takenOf_self same, List.map_append, c.taken, accepted_append, accepted_cons,
        refusals.accepted, List.append_nil, List.map_append]
      refine congrArg _ ?_
      cases verdict with
      | failed fault => rfl
      | taken =>
        unfold taken?
        simp only [Machine.moment, at_]
        rfl

/-- Another call takes a step. -/
theorem Course.next (run : (machine s).Run h st) {id : CallId} {walk : Walk} {event : Event}
    (hs : step s st l = some (st', es)) (move : Move s st l left es)
    (after : After st l.id left st') (hid : id ≠ l.id)
    (at_ : st.calls.get? id = some ⟨walk, .offering event⟩) {row : List Fate}
    (c : Course s h st ((machine s).numberOf h id) walk.source last? events row walk
      (.offer event)) :
    Course s (h ++ [Dispatch.next s h st l es]) st' ((machine s).numberOf h id) walk.source last?
      events row walk (.offer event) := by
  have o := orderly_of_run run
  have other : (Dispatch.next s h st l es).call ≠ (machine s).numberOf h id :=
    run.callOf_ne hs (busy_of_get? s at_) hid
  have number : st'.last? walk.source = st.last? walk.source := by
    rw [after.last?]
    split
    · next hx =>
      rw [hx]
      exact move.last?_eq o (hx ▸ o.first at_) hid
    · rfl
  refine ⟨c.began.concat _, ?_, c.tally, number.trans c.number, ?_, ?_⟩
  · intro us
    rw [verdictsOf_other other, number]
    exact c.fates us
  · rw [offersOf_other other]
    exact c.offers
  · rw [takenOf_other other]
    exact c.taken

/-- A call works, from its turn on or after a verdict. -/
theorem Course.work (run : (machine s).Run h st) {id : CallId} {call : Call} {w : Halted}
    (hs : step s st l = some (st', w.effects id (st.line call.walk.source)))
    (at_ : st.calls.get? id = some call) (works : Works s st id call l last? w)
    (after : After st id ⟨call.walk.source, w.call?,
      (st.streams.get? call.walk.source).map (w.stream id last?)⟩ st') {r : Request}
    (f : Follows s h id call r)
    (before : ∀ event, call.phase = .offering event → ∃ last₀? row,
      Course s h st ((machine s).numberOf h id) (r.source s) last₀? r.events row call.walk
        (.offer event)) :
    ∃ last₀? row, Course s
      (h ++ [Dispatch.next s h st l (w.effects id (st.line call.walk.source))]) st'
      ((machine s).numberOf h id) (r.source s) last₀? r.events row w.walk w.halt := by
  obtain ⟨walk, phase⟩ := call
  cases works with
  | proceed phase first =>
    exact ⟨_, Course.begin run hs at_ f (.proceed phase first) after⟩
  | answer verdict phase =>
    simp only at phase
    subst phase
    obtain ⟨last₀?, row, c⟩ := before _ rfl
    rw [← f.source] at c ⊢
    exact ⟨last₀?, c.goOn run hs at_ (.answer verdict rfl) after⟩

/-- A call keeps its request. -/
theorem Follows.same {id : CallId} {call call' : Call} {r r' : Request}
    (f : Follows s h id call r) (f' : Follows s (h ++ [Dispatch.next s h st l es]) id call' r')
    (hl : l.request? = none ∨ id ≠ l.id) : r' = r := by
  have := f'.arrival
  rw [Machine.numberOf_next id hl, Machine.arrivals_mono _ _ f.arrival] at this
  exact (congrArg Prod.snd (Option.some.inj this)).symm

/-- **A call at work keeps to its course.** -/
theorem course_of_run (run : (machine s).Run h st) {id : CallId} {walk : Walk} {event : Event}
    (at_ : st.calls.get? id = some ⟨walk, .offering event⟩) {r : Request}
    (f : Follows s h id ⟨walk, .offering event⟩ r) :
    ∃ last? row, Course s h st ((machine s).numberOf h id) (r.source s) last? r.events row walk
      (.offer event) := by
  induction run generalizing id walk event r with
  | start => exact absurd at_ (by simp [machine, State.start])
  | @next h st st' l es run hs ih =>
    obtain ⟨left, move, after⟩ := step_move hs
    rw [after.calls] at at_
    by_cases hid : id = l.id
    · rw [if_pos hid] at at_
      cases move with
      | empty _ _ => exact absurd at_ (by simp)
      | sourceless _ _ _ => exact absurd at_ (by simp)
      | arrive _ _ _ => exact absurd (Option.some.inj at_) (by simp)
      | find _ _ _ => exact absurd (Option.some.inj at_) (by simp)
      | refuse _ _ _ _ => exact absurd at_ (by simp)
      | join _ _ => exact absurd (Option.some.inj at_) (by simp)
      | drop _ => exact absurd at_ (by simp)
      | @work id' call _ last? w old works =>
        obtain rfl : id = id' := hid.trans works.label_id
        obtain ⟨r', f'⟩ := follows_of_run run old
        obtain rfl := f'.same f (.inl works.request?_eq)
        have before : ∀ event, call.phase = .offering event → ∃ last₀? row,
            Course s h st ((machine s).numberOf h id) (r.source s) last₀? r.events row call.walk
              (.offer event) := by
          intro event phase
          obtain ⟨walk, _⟩ := call
          simp only at phase
          subst phase
          exact ih old f'
        obtain ⟨last₀?, row, c⟩ := Course.work run hs old works (hid ▸ after) f' before
        rw [Machine.numberOf_next id (.inl works.request?_eq)]
        obtain ⟨same, halt⟩ := Halted.halt_of_call? at_
        rw [same, halt] at c
        exact ⟨last₀?, row, c⟩
    · rw [if_neg hid] at at_
      obtain ⟨r', f'⟩ := follows_of_run run at_
      obtain rfl := f'.same f (.inr hid)
      obtain ⟨last?, row, c⟩ := ih at_ f'
      rw [Machine.numberOf_next id (.inr hid)]
      rw [← f.source] at c ⊢
      exact ⟨last?, row, c.next run hs move after hid at_⟩

/-! ## Calls that are answered -/

/-- A call that comes in or looks for its stream has not had its turn. -/
theorem not_turn (run : (machine s).Run h st) (hs : step s st l = some (st', es))
    (hl : ∀ id, l ≠ .proceed id)
    (old : ∀ call, st.calls.get? l.id = some call → call.phase = .arrived) (x : String) :
    (machine s).callOf h l ∉ turns (h ++ [next s h st l es]) x := by
  have turning := turning_of_run run x
  have none : turn? x (next s h st l es) = none := turn?_eq_none _ hl
  rw [turns_concat, none, Option.toList_none, List.append_nil]
  intro mem
  cases hr : l.request? with
  | some r =>
    have lt := turning.lt _ mem
    rw [Machine.callOf_some hr] at lt
    exact absurd lt (Nat.lt_irrefl _)
  | none =>
    obtain ⟨call, at_⟩ := exists_call hs hr
    rw [callOf_old hs at_] at mem
    obtain ⟨-, event, phase⟩ := (turning.mem_iff at_).mp mem
    rw [old call at_] at phase
    exact absurd phase (by simp)

/-- The walk that a call at its end has behind it. -/
theorem outcome_of_course {w : Halted} {r : Request} {fs : List Fate}
    (hs : step s st l = some (st', es)) (done : w.halt = .done) (along : w.walk.Along r.events)
    (c : Course s (h ++ [next s h st l es]) st' ((machine s).callOf h l) (r.source s) last?
      r.events fs w.walk w.halt) :
    Outcome s (h ++ [next s h st l es]) (next s h st l es) r last?
      w.walk.tally.reply := by
  have whole : ∀ us, fates s.failurePolicy (r.source s) last?
      (verdictsOf (h ++ [next s h st l es]) ((machine s).callOf h l) ++ us) r.events =
      fs := by
    intro us
    rw [c.fates us, done]
    exact List.append_nil fs
  have same : row s (h ++ [next s h st l es]) ((machine s).callOf h l) r last? =
      fs := by
    rw [← whole [], List.append_nil]
    rfl
  have length : fs.length ≤ r.events.length := by
    have le := along.decided_le
    rw [c.tally, foldl_count] at le
    rw [length_row]
    simpa [Tally.decided, Tally.start] using le
  refine ⟨c.began, ?_, ?_, ?_, ?_, ?_⟩
  · refine c.offers.trans ?_
    rw [done]
    exact congrArg _ ((List.append_nil _).trans (congrArg offered same.symm))
  · exact c.taken.trans (congrArg _ (congrArg accepted same.symm))
  · exact fun us => (whole us).trans same.symm
  · show Tells _ (row s _ ((machine s).callOf h l) r last?) _
    rw [same, c.tally]
    exact tells_reply length (length_of_fates whole)
  · intro st'' es' h'
    obtain ⟨rfl, -⟩ := Prod.mk.inj (Option.some.inj (hs.symm.trans h'))
    exact c.number.trans (congrArg (List.foldl _ _) same.symm)

theorem outcome_next (run : (machine s).Run h st) (hs : step s st l = some (st', es))
    {id : CallId} {reply : DispatchReply} (hr : .reply id reply ∈ es) :
    ∃ r, ((machine s).arrivals (h ++ [next s h st l es]))[(machine s).callOf h l]? =
        some (id, r) ∧
      (TurnedAway s (next s h st l es) r reply ∨
        ∃ last?, Outcome s (h ++ [next s h st l es]) (next s h st l es) r last? reply) := by
  obtain ⟨r, arrival, answered⟩ := answered_next run hs hr
  refine ⟨r, arrival, ?_⟩
  rcases answered with turn | away
  · right
    obtain ⟨left, move, after⟩ := step_move hs
    obtain ⟨rfl, ended⟩ := move.reply hr
    have unturned := not_turn run hs
    cases move with
    | empty free _ =>
      exact absurd turn (unturned (by simp) (fun _ h => absurd (free.symm.trans h) (by simp)) _)
    | sourceless free _ _ =>
      exact absurd turn (unturned (by simp) (fun _ h => absurd (free.symm.trans h) (by simp)) _)
    | arrive free _ _ =>
      exact absurd turn (unturned (by simp) (fun _ h => absurd (free.symm.trans h) (by simp)) _)
    | find _ _ _ => exact absurd hr (by simp)
    | refuse at_ phase _ _ =>
      refine absurd turn (unturned (by simp) (fun call h => ?_) _)
      rw [← Option.some.inj (at_.symm.trans h), phase]
    | join _ _ => exact absurd hr (by simp)
    | drop _ => exact absurd hr (reply_not_mem_wakes _ _ _ _)
    | @work id call _ last? w at_ works =>
      have o := orderly_of_run run
      have hid := works.label_id
      obtain ⟨r', f⟩ := follows_of_run run at_
      have number : (machine s).callOf h l = (machine s).numberOf h id := by
        rw [callOf_old hs (hid.symm ▸ at_), hid]
      obtain rfl : r' = r := by
        rw [number, Machine.arrivals_mono _ _ f.arrival] at arrival
        exact congrArg Prod.snd (Option.some.inj arrival)
      obtain ⟨last₀?, row, c⟩ := Course.work run hs at_ works (hid ▸ after) f fun event phase => by
        obtain ⟨walk, _⟩ := call
        simp only at phase
        subst phase
        exact course_of_run run at_ f
      have done : w.halt = .done := Halted.done_of_call? ended
      obtain rfl : reply = w.walk.tally.reply :=
        congrArg Prod.snd (Halted.told_mem (List.mem_filterMap.mpr ⟨_, hr, rfl⟩)).2
      rw [← number] at c
      exact ⟨last₀?, outcome_of_course hs done (works.along o at_ f.along) c⟩
  · exact .inl away

/-- What other calls do later changes nothing of an outcome. -/
theorem Outcome.concat {m m' : Moment State Label Effect} {r : Request} {reply : DispatchReply}
    (c : Outcome s h m r last? reply) (other : m'.call ≠ m.call) :
    Outcome s (h ++ [m']) m r last? reply := by
  have same : row s (h ++ [m']) m.call r last? = row s h m.call r last? := by
    unfold row
    rw [verdictsOf_other other]
  refine ⟨c.began.concat m', ?_, ?_, ?_, ?_, ?_⟩
  · rw [offersOf_other other, same]
    exact c.offers
  · rw [takenOf_other other, same]
    exact c.taken
  · rw [verdictsOf_other other, same]
    exact c.whole
  · rw [same]
    exact c.reply
  · rw [same]
    exact c.number

/-- **Every call that is answered** is turned away, or it has offered and is told what the
reference says. -/
theorem answers_of_run (run : (machine s).Run h st) : Answers s h := by
  induction run with
  | start => exact fun m hm => absurd hm (by simp)
  | @next h st st' l es run hs ih =>
    intro m hm id reply hr
    rw [List.mem_append, List.mem_singleton] at hm
    rcases hm with hm | rfl
    · obtain ⟨r, arrival, answered⟩ := ih m hm id reply hr
      have other : (next s h st l es).call ≠ m.call := fun e =>
        run.nothing_after last_reply hs hm ⟨id, reply, hr⟩ e.symm
      refine ⟨r, Machine.arrivals_mono _ _ arrival, answered.imp_right ?_⟩
      rintro ⟨last?, c⟩
      exact ⟨last?, c.concat other⟩
    · exact outcome_next run hs hr

end ChangeRelay.Dispatch
