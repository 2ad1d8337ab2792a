import ChangeRelay.Host.Calls
import ChangeRelay.Proofs.Host.Progress
import ChangeRelay.Proofs.Http.Unread

/-!
# Who is refused leaves no trace

What is sent to a host, in a plain request or with a remote call, succeeds if and only if it gets
a slot. What is wrong with a plain request is found before it asks for one. Without a slot nothing
comes of a request in the dispatcher or the reaction handler; with one it is answered with what
these have to say, however bad that is. Once the host is shut down nobody gets a slot any more, and
those who have one finish.

* `step_of_closed`: what a step does once the pool is closed.
* `ends_of_span`: a request that is not dropped is refused, or answered.
* **`refusals_of_run`**: so a host treats what is sent to it, at every moment of every run.
-/

namespace ChangeRelay.Host

/-! ## What is sent, and what comes back -/

/-- What is sent to a host: a plain request, which comes through a router, or a remote call whose
message was read. -/
inductive Sent
  | plain (router : Http.Router) (request : Http.Request)
  | remote (work : Work)

/-- What comes back. -/
inductive Received
  | answer (answer : Http.Answer)
  | reply (reply : Reply)
  /-- A remote call fails with a status. -/
  | failure (code : Nat) (message : String)

/-- What is asked of the host. -/
def Sent.work? : Sent → Option Work
  | .plain router r => match r.plan router with
    | .work request => some (.dispatch request)
    | _ => none
  | .remote work => some work

/-- What comes back from the host. -/
def Sent.received? (x : Sent) (outcome : Simulation.Outcome) : Option Received :=
  match x, outcome with
  | .plain router r, outcome => ((r.plan router).answer? outcome).map .answer
  | .remote _, .reply reply => some (.reply reply)
  | .remote _, .refused refusal => some (.failure refusal.code refusal.message)
  | .remote _, _ => none

/-- A refusal comes back as a failure: as too many requests or an unavailable service in an answer,
as exhausted resources or an unavailable service from a remote call. -/
inductive Received.Fails : Received → Pool.Refusal → Prop
  | answerBusy {workers : Nat} {waited : Duration} {body : Option Json} :
      Fails (.answer ⟨429, body⟩) (.busy workers waited)
  | answerClosed {body : Option Json} : Fails (.answer ⟨503, body⟩) .closed
  | busy {workers : Nat} {waited : Duration} {message : String} :
      Fails (.failure 8 message) (.busy workers waited)
  | closed {message : String} : Fails (.failure 14 message) .closed

/-- A reply comes back as a success that says what the reply says. -/
inductive Received.Succeeds : Received → Reply → Prop
  | answer (reply : DispatchReply) : Succeeds (.answer ⟨200, some reply.json⟩) (.dispatch reply)
  | reply (reply : Reply) : Succeeds (.reply reply) reply

/-- What the dispatcher or the reaction handler has to say to a request, in their part of a
history. -/
inductive Answered (s : Settings) (hist : List Moment) (id : CallId) : Work → Reply → Prop
  | dispatch {r : Dispatch.Request} {reply : DispatchReply}
      (yields : (Dispatch.machine s.dispatch).Yields (hist.filterMap Moment.dispatch?) id r
        (.reply id reply)) : Answered s hist id (.dispatch r) (.dispatch reply)
  | handle {i : Wire.Invocation} {reply : InvocationReply}
      (yields : (Reaction.machine s.reaction).Yields (hist.filterMap Moment.reaction?) id i
        (.reply id reply)) : Answered s hist id (.handle i) (.invocation reply)

/-! ## The time of a request -/

/-- A request has got a slot. -/
def Slotted (id : CallId) (work : Work) (ms : List Moment) : Prop := ∃ m ∈ ms, m.Grants id work

/-- The time of what was sent as `x` is over: it got no slot and is refused, or it got one and is
answered. -/
inductive Concludes (s : Settings) (hist : List Moment) (x : Sent) (id : CallId) (work : Work) :
    List Moment → Prop
  | refused {pre : List Moment} {m : Moment} {refusal : Pool.Refusal} {received : Received}
      (noSlot : ¬Slotted id work (pre ++ [m])) (refuses : m.Refuses id refusal)
      (back : x.received? (.refused refusal) = some received) (fails : received.Fails refusal) :
      Concludes s hist x id work (pre ++ [m])
  | answered {pre : List Moment} {m : Moment} {reply : Reply} {received : Received}
      (slot : Slotted id work (pre ++ [m]))
      (told : m.effects.filterMap Effect.told? = [(id, reply)])
      (answered : Answered s (hist ++ (pre ++ [m])) id work reply)
      (back : x.received? (.reply reply) = some received) (succeeds : received.Succeeds reply) :
      Concludes s hist x id work (pre ++ [m])

/-- How it stands at a moment of the time of what was sent as `x`. -/
structure Settled (s : Settings) (hist : List Moment) (x : Sent) (id : CallId) (work : Work)
    (ms : List Moment) (st : State) : Prop where
  /-- Without a slot it leaves no trace. -/
  traceless : ¬Slotted id work ms → ∀ m ∈ ms, m.label.id? = some id → m.Traceless id
  /-- With a slot it is not refused. -/
  unrefused : Slotted id work ms → Unrefused id ms
  ended : st.contains id = false → (∃ m ∈ ms, m.label = .drop id) ∨ Concludes s hist x id work ms

/-- Nobody gets a slot any more. -/
structure ShutOut (s : Settings) (st : State) : Prop where
  /-- Whoever comes is refused at once, -/
  comes : ∀ id work, st.contains id = false →
    step s st (.request id work) = some (st, [.refuse id .closed])
  /-- and whoever waits for a slot when it goes on. -/
  goesOn : ∀ id, st.pool.standing id = .waiting → ∃ st' es,
    step s st (.resume id) = some (st', es) ∧ Moment.Refuses ⟨.resume id, st, es, st'⟩ id .closed
  /-- Whoever has no slot never gets one, leaves no trace, and is told that the pool is closed. -/
  never : ∀ id ms st', st.pool.standing id ≠ .holding → Steps s st ms st' → ∀ m ∈ ms,
    (∀ work, ¬m.Grants id work) ∧ (m.label.id? = some id → m.Traceless id) ∧
      ∀ refusal, .refuse id refusal ∈ m.effects → refusal = .closed

/-- How a host treats what is sent to it, whatever its router takes for a name. -/
structure Honours (s : Settings) (hist : List Moment) (st : State) : Prop where
  /-- What is wrong with a plain request is found without the host, which stays as it is. -/
  unread : ∀ (router : Http.Router) (r : Http.Request) (status : Nat) (w : Simulation.World),
    r.method = "POST" → Http.Unread router r status → w.host = st → ∃ status' w', status' ≠ 200 ∧
      Http.exchange router w r = (w', some ⟨status', none⟩) ∧ w'.host = st ∧
        w'.events = w.events ∧ w'.invocations = w.invocations
  /-- Any other asks the host for something. -/
  read : ∀ (router : Http.Router) (r : Http.Request), r.method = "POST" →
    (∀ status, ¬Http.Unread router r status) →
      ∃ request, (Sent.plain router r).work? = some (.dispatch request)
  settled : ∀ x id work ms st', x.work? = some work → work ≠ .keep →
    Span s st id work ms st' → Settled s hist x id work ms st'
  /-- Whatever stands before it, a request can come to its end, and not by being dropped. -/
  ends : ∀ x id work ms st', x.work? = some work → work ≠ .keep → Span s st id work ms st' →
    st'.contains id = true → ∃ ms' st'', Span s st id work (ms ++ ms') st'' ∧
      (∀ m ∈ ms', m.label.isOwn = true) ∧ Concludes s hist x id work (ms ++ ms')
  /-- A shutdown is for ever. -/
  shutdown : st.shutdown = true → ∀ ms st', Steps s st ms st' → ShutOut s st'

variable {s : Settings} {st st' st'' : State} {l : Label} {es : List Effect} {id : CallId}
variable {work : Work} {hist ms : List Moment} {x : Sent}

/-! ## What comes back -/

/-- A plain request that asks for something asks to dispatch events. -/
theorem plan_of_work {router : Http.Router} {r : Http.Request}
    (asks : (Sent.plain router r).work? = some work) :
    ∃ request, r.plan router = .work request ∧ work = .dispatch request := by
  simp only [Sent.work?] at asks
  cases plan : r.plan router with
  | work request =>
    simp only [plan] at asks
    exact ⟨request, rfl, (Option.some.inj asks).symm⟩
  | answer _ => exact absurd asks (by simp [plan])
  | counters => exact absurd asks (by simp [plan])

theorem back_of_refusal (asks : x.work? = some work) (refusal : Pool.Refusal) :
    ∃ received, x.received? (.refused refusal) = some received ∧ received.Fails refusal := by
  cases x with
  | plain router r =>
    obtain ⟨request, plan, -⟩ := plan_of_work asks
    refine ⟨.answer (.ofRefusal refusal), ?_, ?_⟩
    · simp only [Sent.received?, plan]
      rfl
    · cases refusal with
      | busy workers waited => exact .answerBusy
      | closed => exact .answerClosed
  | remote _ =>
    refine ⟨_, rfl, ?_⟩
    cases refusal with
    | busy workers waited => exact .busy
    | closed => exact .closed

theorem back_of_answered {reply : Reply} (asks : x.work? = some work)
    (answered : Answered s hist id work reply) :
    ∃ received, x.received? (.reply reply) = some received ∧ received.Succeeds reply := by
  cases x with
  | plain router r =>
    obtain ⟨request, plan, rfl⟩ := plan_of_work asks
    cases answered with
    | @dispatch _ reply _ =>
      refine ⟨.answer (.ofReply reply), ?_, .answer reply⟩
      simp only [Sent.received?, plan]
      rfl
  | remote _ => exact ⟨_, rfl, .reply reply⟩

theorem answered_of_dispatcher {r : Dispatch.Request} {m : Moment} {reply : Reply}
    (answers : (dispatcher s).Answers hist m id r reply) :
    Answered s (hist ++ [m]) id (.dispatch r) reply := by
  obtain ⟨-, e, effect, yields⟩ := answers
  cases e with
  | reply id' reply' =>
    obtain ⟨rfl, rfl⟩ := Effect.reply.inj effect
    exact .dispatch yields
  | _ => exact absurd effect (by simp [dispatcher, Effect.ofDispatch])

theorem answered_of_handler {i : Wire.Invocation} {m : Moment} {reply : Reply}
    (answers : (handler s).Answers hist m id i reply) :
    Answered s (hist ++ [m]) id (.handle i) reply := by
  obtain ⟨-, e, effect, yields⟩ := answers
  cases e with
  | reply id' reply' =>
    obtain ⟨rfl, rfl⟩ := Effect.reply.inj effect
    exact .handle yields
  | _ => exact absurd effect (by simp [handler, Effect.ofReaction])

/-! ## The time of a request -/

theorem Unseen.not_slotted (unseen : Unseen id work ms) : ¬Slotted id work ms := by
  rintro ⟨m, hm, grants⟩
  exact unseen.noSlot m hm grants

/-- How it stands with a request, from its course. -/
theorem settled_of_course {p : Part s} {r : p.ρ} (course : Course p hist id r ms st)
    (sound : st.Sound) (asks : x.work? = some (p.work r))
    (core : ∀ {hist m reply}, p.Answers hist m id r reply →
      Answered s (hist ++ [m]) id (p.work r) reply) :
    Settled s hist x id (p.work r) ms st := by
  have still : st.pool.standing id ≠ .away → st.contains id ≠ false := by
    intro there
    simp [contains_iff.mpr there]
  have of_unseen : Unseen id (p.work r) ms →
      (st.contains id = false → (∃ m ∈ ms, m.label = .drop id) ∨
        Concludes s hist x id (p.work r) ms) → Settled s hist x id (p.work r) ms st := by
    intro unseen ended
    exact ⟨fun _ => unseen.traceless, fun slot => absurd slot unseen.not_slotted, ended⟩
  have of_seen : Seen id (p.work r) ms →
      (st.contains id = false → (∃ m ∈ ms, m.label = .drop id) ∨
        Concludes s hist x id (p.work r) ms) → Settled s hist x id (p.work r) ms st := by
    intro seen ended
    exact ⟨fun none => absurd seen.slot none, fun _ => seen.unrefused, ended⟩
  cases course with
  | waits stands _ unseen _ =>
    exact of_unseen unseen fun gone => absurd gone (still (by simp [stands]))
  | works busy _ seen =>
    exact of_seen seen fun gone => absurd gone (still (by simp [p.holds sound busy]))
  | @refused pre m refusal split _ unseen refuses =>
    subst split
    obtain ⟨received, back, fails⟩ := back_of_refusal asks refusal
    exact of_unseen unseen fun _ => .inr (.refused unseen.not_slotted refuses back fails)
  | @dropped pre m split _ fair drops =>
    subst split
    have ended : ∃ m' ∈ pre ++ [m], m'.label = .drop id :=
      ⟨m, List.mem_append_right _ (List.mem_singleton_self _), drops⟩
    rcases fair with unseen | seen
    · exact of_unseen unseen fun _ => .inl ended
    · exact of_seen seen fun _ => .inl ended
  | @answered pre m reply split _ seen answers =>
    subst split
    have answered := core answers
    obtain ⟨received, back, succeeds⟩ := back_of_answered asks answered
    rw [List.append_assoc] at answered
    exact of_seen seen fun _ => .inr (.answered seen.slot answers.told answered back succeeds)

theorem settled_of_span (run : Run s hist st) (asks : x.work? = some work) (wants : work ≠ .keep)
    (span : Span s st id work ms st') : Settled s hist x id work ms st' := by
  have sound := sound_of_run (Steps.append run span.steps)
  cases work with
  | dispatch r =>
    exact settled_of_course (course_of_span (dispatcher s) run span) sound asks
      answered_of_dispatcher
  | handle i =>
    exact settled_of_course (course_of_span (handler s) run span) sound asks answered_of_handler
  | keep => exact absurd rfl wants

/-- Whoever is in progress was not dropped. -/
theorem Span.undropped (run : Run s hist st) (span : Span s st id work ms st')
    (busy : st'.contains id = true) : ∀ m ∈ ms, m.label ≠ .drop id := by
  induction span with
  | comes _ => exact List.forall_mem_singleton.mpr (by simp)
  | @goesOn ms st' st'' l es span busy' h ih =>
    refine List.forall_mem_append.mpr ⟨ih busy', List.forall_mem_singleton.mpr ?_⟩
    rintro rfl
    have gone := gone_of_drop (sound_of_run (Steps.append run span.steps)) h
    exact absurd (gone.symm.trans busy) (by simp)

/-- **A request comes to its end**: it is refused, or answered. -/
theorem ends_of_span (run : Run s hist st) (asks : x.work? = some work) (wants : work ≠ .keep)
    (span : Span s st id work ms st') (busy : st'.contains id = true) :
    ∃ ms' st'', Span s st id work (ms ++ ms') st'' ∧ (∀ m ∈ ms', m.label.isOwn = true) ∧
      Concludes s hist x id work (ms ++ ms') := by
  obtain ⟨ms', st'', span', own, gone⟩ := span.ends run
  refine ⟨ms', st'', span', own, ?_⟩
  rcases (settled_of_span run asks wants span').ended gone with ⟨m, hm, drops⟩ | ended
  · rcases List.mem_append.mp hm with hm | hm
    · exact absurd drops (span.undropped run busy m hm)
    · have own := own m hm
      rw [drops] at own
      exact absurd own (by simp [Label.isOwn])
  · exact ended

/-! ## After a shutdown -/

/-- A step of who has no slot, once there is none to be had. -/
theorem Move.of_closed (sound : st.Sound) (closed : st.pool.closed = true)
    (out : st.pool.standing id ≠ .holding) {left : Left} (m : Move s st l id left es) :
    left = st.left .away none ∧ (es = [] ∨ es = [.refuse id .closed]) := by
  have shut : ∀ {id' work}, ¬Gets st l id' work := by
    intro id' work gets
    exact absurd (closed.symm.trans gets.opened) (by simp)
  cases m with
  | turnAway _ _ => exact ⟨rfl, .inr rfl⟩
  | queue _ opened _ => exact absurd (closed.symm.trans opened) (by simp)
  | keep gets => exact absurd gets shut
  | dispatch is steps =>
    obtain ⟨work, gets⟩ := is.gets steps (sound.idle out)
    exact absurd gets shut
  | reaction is steps =>
    obtain ⟨work, gets⟩ := is.gets steps (sound.aside out)
    exact absurd gets shut
  | tooLong _ opened => exact absurd (closed.symm.trans opened) (by simp)
  | tooLate _ _ => exact ⟨rfl, .inr rfl⟩
  | giveBack keeps =>
    simp only [State.keeps, decide_eq_true_eq] at keeps
    exact absurd ((Pool.standing_eq_holding_iff sound.pool).mpr keeps.1) out
  | leave _ _ _ => exact ⟨rfl, .inl rfl⟩

/-- **What a step does once there is no slot to be had.** -/
theorem step_of_closed (sound : st.Sound) (closed : st.pool.closed = true)
    (h : step s st l = some (st', es)) (out : st.pool.standing id ≠ .holding) :
    st'.pool.standing id ≠ .holding ∧ (∀ work, ¬Gets st l id work) ∧
      (l.id? = some id → Moment.Traceless ⟨l, st, es, st'⟩ id) ∧
        ∀ refusal, .refuse id refusal ∈ es → refusal = .closed := by
  have shut : ∀ work, ¬Gets st l id work := by
    intro work gets
    exact absurd (closed.symm.trans gets.opened) (by simp)
  by_cases own : l.id? = some id
  · rcases step_move sound h with ⟨rfl, -, -⟩ | ⟨id', left, caller, m, after⟩
    · exact absurd own (by simp [Label.id?])
    obtain rfl := Option.some.inj (own.symm.trans caller)
    obtain ⟨rfl, effects⟩ := m.of_closed sound closed out
    have told : ∀ e ∈ loud es, e = .refuse id .closed := by
      rcases effects with effects | effects <;> simp [effects]
    refine ⟨by simp [after.pool.2, State.left], shut, fun _ => ?_, ?_⟩
    · exact after.traceless fun e he => ⟨.closed, told e he⟩
    · intro refusal refused
      exact (Effect.refuse.inj (told _ ((mem_loud rfl).mpr refused))).2
  · refine ⟨?_, shut, fun same => absurd same own, ?_⟩
    · rwa [(step_of_other sound h own).1]
    · intro refusal refused
      exact absurd (step_refuses sound h refused).1 own

theorem closed_of_step (sound : st.Sound) (h : step s st l = some (st', es)) :
    (st.pool.closed = true → st'.pool.closed = true) ∧
      ((st.shutdown = true → st.pool.closed = true) →
        st'.shutdown = true → st'.pool.closed = true) := by
  rcases step_move sound h with ⟨-, rfl, -⟩ | ⟨id, left, -, -, after⟩
  · exact ⟨fun _ => rfl, fun _ _ => rfl⟩
  · rw [after.pool.1.closed, after.shutdown]
    exact ⟨fun closed => closed, fun closed => closed⟩

theorem closed_of_run (run : Run s hist st) (shutdown : st.shutdown = true) :
    st.pool.closed = true := by
  induction run with
  | stop => exact absurd shutdown (by simp [State.start])
  | next steps h ih => exact (closed_of_step (sound_of_run steps) h).2 ih shutdown

theorem closed_of_steps (sound : st.Sound) (closed : st.pool.closed = true)
    (steps : Steps s st ms st') : st'.pool.closed = true := by
  induction steps with
  | stop => exact closed
  | next steps h ih => exact (closed_of_step (steps.sound sound).1 h).1 ih

/-- **Who has no slot when there is none to be had** never gets one. -/
theorem never_of_closed (sound : st.Sound) (closed : st.pool.closed = true)
    (out : st.pool.standing id ≠ .holding) (steps : Steps s st ms st') :
    st'.pool.standing id ≠ .holding ∧ ∀ m ∈ ms, (∀ work, ¬m.Grants id work) ∧
      (m.label.id? = some id → m.Traceless id) ∧
        ∀ refusal, .refuse id refusal ∈ m.effects → refusal = .closed := by
  induction steps with
  | stop => exact ⟨out, fun _ hm => absurd hm List.not_mem_nil⟩
  | next steps h ih =>
    obtain ⟨out', before⟩ := ih
    obtain ⟨out'', last⟩ :=
      step_of_closed (steps.sound sound).1 (closed_of_steps sound closed steps) h out'
    exact ⟨out'', List.forall_mem_append.mpr ⟨before, List.forall_mem_singleton.mpr last⟩⟩

theorem request_of_closed (closed : st.pool.closed = true) (new : st.contains id = false) :
    step s st (.request id work) = some (st, [.refuse id .closed]) := by
  simp [step, new, State.request, Pool.acquire, closed]

theorem resume_of_closed (sound : st.Sound) (closed : st.pool.closed = true)
    (waits : st.pool.standing id = .waiting) : ∃ st' es,
      step s st (.resume id) = some (st', es) ∧
        Moment.Refuses ⟨.resume id, st, es, st'⟩ id .closed := by
  obtain ⟨work, wants⟩ := Option.isSome_iff_exists.mp ((sound.waits id).mpr waits)
  have resumes : st.pool.resume id = some (st.pool.leave id, .error .closed) := by
    simp [Pool.resume, closed, Pool.standing_eq_waiting_iff.mp waits]
  have h : (step s st (.resume id)).isSome = true := by
    simp only [step, resumes, wants]
    rfl
  obtain ⟨⟨st', es⟩, h⟩ := Option.isSome_iff_exists.mp h
  refine ⟨st', es, h, ?_⟩
  rcases step_of_waiting sound waits wants h rfl with gets | out
  · exact absurd (closed.symm.trans gets.opened) (by simp)
  · rcases out.why with wrong | ⟨refusal, refuses⟩
    · exact absurd wrong (by simp)
    · cases refuses with
      | busy wrong _ _ => exact absurd wrong (by simp)
      | closed closed told => exact .closed closed told

theorem shutOut_of_closed (sound : st.Sound) (closed : st.pool.closed = true) : ShutOut s st where
  comes := fun _ _ new => request_of_closed closed new
  goesOn := fun _ waits => resume_of_closed sound closed waits
  never := fun _ _ _ out steps => (never_of_closed sound closed out steps).2

/-! ## What is sent to a host -/

/-- **What is sent to a host** succeeds if it gets a slot. Without one it is refused and leaves no
trace, and after a shutdown nobody gets one. -/
theorem refusals_of_run (run : Run s hist st) : Honours s hist st := by
  have sound := sound_of_run run
  constructor
  · rintro router r status w post u rfl
    obtain ⟨status', tasks, failure, exchange⟩ := Http.exchange_of_unread post u w
    exact ⟨status', _, failure, exchange, rfl, rfl, rfl⟩
  · intro router r post fine
    rcases Http.plan_of_post post with ⟨status, -, u⟩ | ⟨request, plan, -⟩
    · exact absurd u (fine status)
    · exact ⟨request, by simp only [Sent.work?, plan]⟩
  · intro x id work ms st' asks wants span
    exact settled_of_span run asks wants span
  · intro x id work ms st' asks wants span busy
    exact ends_of_span run asks wants span busy
  · intro shutdown ms st' steps
    have closed := closed_of_steps sound (closed_of_run run shutdown) steps
    exact shutOut_of_closed (steps.sound sound).1 closed

/-- The sample: it is shut down while one request holds its slot and another waits for it. -/
theorem refusals_sample : ∃ ms st, play OneSlot.settings (OneSlot.labels.take 12) = some (ms, st) ∧
    st.shutdown = true ∧ st.pool.line = [4] ∧ st.pool.holders = [3] ∧
    Honours OneSlot.settings ms st := by
  have played : (play OneSlot.settings (OneSlot.labels.take 12)).map
      (fun r => (r.2.shutdown, r.2.pool.line, r.2.pool.holders)) = some (true, [4], [3]) := by
    decide +kernel
  obtain ⟨⟨ms, st⟩, h, seen⟩ := Option.map_eq_some_iff.mp played
  simp only [Prod.mk.injEq] at seen
  exact ⟨ms, st, h, seen.1, seen.2.1, seen.2.2, refusals_of_run (run_of_play h)⟩

end ChangeRelay.Host
