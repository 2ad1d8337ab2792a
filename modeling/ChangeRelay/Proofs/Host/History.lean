import ChangeRelay.Proofs.Host.Move
import ChangeRelay.Proofs.Reaction.Once

/-!
# Histories of a host

A history is written down step by step, with the states before and after each step. What goes on in
the host is, for its dispatcher, a run of the dispatcher, and for its reaction handler a run of the
reaction handler: `dispatch?` and `reaction?` say which step of theirs a step of the host contains.

* **`sound_of_run`**: every state of a run is sound.
* **`dispatch_of_run`**, **`reaction_of_run`**: what a run of the host is for either of them.
-/

namespace ChangeRelay.Host

/-- One step of a host. -/
structure Moment where
  label : Label
  before : State
  effects : List Effect
  after : State

/-- Steps in a row. -/
inductive Steps (s : Settings) : State → List Moment → State → Prop
  | stop {st : State} : Steps s st [] st
  | next {st st' st'' : State} {ms : List Moment} {l : Label} {es : List Effect}
      (steps : Steps s st ms st') (h : step s st' l = some (st'', es)) :
      Steps s st (ms ++ [⟨l, st', es, st''⟩]) st''

/-- Steps from the start. -/
abbrev Run (s : Settings) (ms : List Moment) (st : State) : Prop := Steps s (.start s) ms st

/-- Writes down what happens under one label after the other, as long as the steps can be taken. -/
def playFrom (s : Settings) (ms : List Moment) (st : State) :
    List Label → Option (List Moment × State)
  | [] => some (ms, st)
  | l :: ls => match step s st l with
    | some (st', es) => playFrom s (ms ++ [⟨l, st, es, st'⟩]) st' ls
    | none => none

def play (s : Settings) (ls : List Label) : Option (List Moment × State) :=
  playFrom s [] (.start s) ls

/-- The step of the dispatcher that a step contains. -/
def State.dispatch? (st : State) : Label → Option Dispatch.Label
  | .request id (.dispatch r) =>
    if st.pool.closed = false ∧ 0 < st.pool.available then some (.arrive id r) else none
  | .resume id => match st.pool.closed, st.waiting.get? id with
    | false, some (.dispatch r) => some (.arrive id r)
    | _, _ => none
  | .dispatch l => some l
  | .drop id => if st.dispatch.calls.contains id then some (.drop id) else none
  | _ => none

/-- The step of the reaction handler that a step contains. -/
def State.reaction? (st : State) : Label → Option Reaction.Label
  | .request id (.handle i) =>
    if st.pool.closed = false ∧ 0 < st.pool.available then some (.arrive id i) else none
  | .resume id => match st.pool.closed, st.waiting.get? id with
    | false, some (.handle i) => some (.arrive id i)
    | _, _ => none
  | .reaction l => some l
  | .drop id => if st.reaction.deliveries.contains id then some (.drop id) else none
  | _ => none

def Moment.dispatch? (m : Moment) : Option Dispatch.Label := m.before.dispatch? m.label

def Moment.reaction? (m : Moment) : Option Reaction.Label := m.before.reaction? m.label

variable {s : Settings} {st st' st'' : State} {l : Label} {es : List Effect} {id : CallId}
variable {ms ms' : List Moment}

/-! ## Steps in a row -/

theorem steps_of_playFrom (ls : List Label) {st₀ : State} (steps : Steps s st₀ ms st)
    (h : playFrom s ms st ls = some (ms', st')) : Steps s st₀ ms' st' := by
  induction ls generalizing ms st with
  | nil =>
    obtain ⟨rfl, rfl⟩ := Prod.mk.inj (Option.some.inj h)
    exact steps
  | cons l ls ih =>
    rw [playFrom] at h
    split at h
    · next hs => exact ih (steps.next hs) h
    · exact absurd h (by simp)

theorem run_of_play {ls : List Label} (h : play s ls = some (ms, st)) : Run s ms st :=
  steps_of_playFrom ls .stop h

theorem Steps.append (steps : Steps s st ms st') (steps' : Steps s st' ms' st'') :
    Steps s st (ms ++ ms') st'' := by
  induction steps' with
  | stop => rwa [List.append_nil]
  | next _ h ih =>
    rw [← List.append_assoc]
    exact ih.next h

/-- **Every state of a run is sound**, and the pool keeps its size. -/
theorem Steps.sound (steps : Steps s st ms st') (sound : st.Sound) :
    st'.Sound ∧ st'.pool.workers = st.pool.workers := by
  induction steps with
  | stop => exact ⟨sound, rfl⟩
  | next _ h ih =>
    obtain ⟨sound, workers⟩ := ih
    refine ⟨sound.step h, ?_⟩
    rcases step_move sound h with ⟨-, rfl, -⟩ | ⟨id, left, -, -, after⟩
    · exact workers
    · exact after.pool.1.workers.trans workers

theorem Steps.moment (steps : Steps s st ms st') (sound : st.Sound) : ∀ m ∈ ms,
    m.before.Sound ∧ step s m.before m.label = some (m.after, m.effects) := by
  induction steps with
  | stop => exact fun _ hm => absurd hm List.not_mem_nil
  | next steps h ih =>
    have last := And.intro (steps.sound sound).1 h
    exact List.forall_mem_append.mpr ⟨ih, List.forall_mem_singleton.mpr last⟩

theorem sound_of_run (run : Run s ms st) : st.Sound := (run.sound (sound_start s)).1

theorem workers_of_run (run : Run s ms st) : st.pool.workers = max s.workers 1 :=
  (run.sound (sound_start s)).2

/-! ## What the dispatcher and the reaction handler see -/

theorem Gets.opened {work : Work} (gets : Gets st l id work) : st.pool.closed = false := by
  cases gets with
  | atOnce _ slot => exact slot.1
  | called _ opened _ => exact opened

/-- What a request reaches that gets its slot. -/
theorem Gets.reaches {work : Work} (gets : Gets st l id work) :
    st.dispatch? l = (match work with | .dispatch r => some (.arrive id r) | _ => none) ∧
      st.reaction? l = (match work with | .handle i => some (.arrive id i) | _ => none) := by
  cases gets with
  | atOnce _ slot =>
    cases work with
    | dispatch r => exact ⟨if_pos slot, rfl⟩
    | handle i => exact ⟨rfl, if_pos slot⟩
    | keep => exact ⟨rfl, rfl⟩
  | called _ opened waits =>
    simp only [State.dispatch?, State.reaction?, opened, waits]
    cases work <;> exact ⟨rfl, rfl⟩

/-- **A step of the dispatcher**, or none. -/
theorem Move.dispatch?_spec (sound : st.Sound) {left : Left} (m : Move s st l id left es) :
    (st.dispatch? l = none ∧ left.dispatch = st.dispatch) ∨
    ∃ l' des, st.dispatch? l = some l' ∧ l'.id = id ∧
      Dispatch.step s.dispatch st.dispatch l' = some (left.dispatch, des) ∧
      left.place = .ofBusy (left.dispatch.calls.contains l'.id) ∧
      (l'.isDrop = true → l = .drop l'.id) ∧ es = loud (des.map .ofDispatch) := by
  cases m with
  | @turnAway id work _ closed =>
    refine .inl ⟨?_, rfl⟩
    cases work with
    | dispatch r => exact if_neg (by simp [closed])
    | _ => rfl
  | @queue id work _ _ full =>
    refine .inl ⟨?_, rfl⟩
    cases work with
    | dispatch r => exact if_neg (by simp [full])
    | _ => rfl
  | keep gets => exact .inl ⟨gets.reaches.1, rfl⟩
  | @dispatch _ l' d des is steps =>
    refine .inr ⟨l', des, ?_, rfl, steps, rfl, ?_, rfl⟩
    · cases is with
      | arrive gets => exact gets.reaches.1
      | own _ => rfl
      | drop id => exact if_pos (Dispatch.contains_before steps)
    · cases is with
      | arrive _ => exact fun dropped => absurd dropped Bool.false_ne_true
      | own own => exact fun dropped => absurd ((own_spec own).2.symm.trans dropped) (by simp)
      | drop id => exact fun _ => rfl
  | reaction is steps =>
    refine .inl ⟨?_, rfl⟩
    cases is with
    | arrive gets => exact gets.reaches.1
    | own _ => rfl
    | drop id =>
      have idle : st.dispatch.calls.contains id = false := InReaction.idle sound (.drop id) steps
      exact if_neg (by simp [idle])
  | tooLong _ _ => exact .inl ⟨rfl, rfl⟩
  | tooLate _ closed => exact .inl ⟨by simp [State.dispatch?, closed], rfl⟩
  | giveBack _ => exact .inl ⟨rfl, rfl⟩
  | leave _ idle _ => exact .inl ⟨if_neg (by simp [idle]), rfl⟩

/-- **A step of the reaction handler**, or none. -/
theorem Move.reaction?_spec (sound : st.Sound) {left : Left} (m : Move s st l id left es) :
    (st.reaction? l = none ∧ left.reaction = st.reaction) ∨
    ∃ l' res, st.reaction? l = some l' ∧ l'.id = id ∧
      Reaction.step s.reaction st.reaction l' = some (left.reaction, res) ∧
      left.place = .ofBusy (left.reaction.deliveries.contains l'.id) ∧
      (l'.isDrop = true → l = .drop l'.id) ∧ es = loud (res.map .ofReaction) := by
  cases m with
  | @turnAway id work _ closed =>
    refine .inl ⟨?_, rfl⟩
    cases work with
    | handle i => exact if_neg (by simp [closed])
    | _ => rfl
  | @queue id work _ _ full =>
    refine .inl ⟨?_, rfl⟩
    cases work with
    | handle i => exact if_neg (by simp [full])
    | _ => rfl
  | keep gets => exact .inl ⟨gets.reaches.2, rfl⟩
  | dispatch is steps =>
    refine .inl ⟨?_, rfl⟩
    cases is with
    | arrive gets => exact gets.reaches.2
    | own _ => rfl
    | drop id =>
      have aside : st.reaction.deliveries.contains id = false :=
        InDispatch.aside sound (.drop id) steps
      exact if_neg (by simp [aside])
  | @reaction _ l' r res is steps =>
    refine .inr ⟨l', res, ?_, rfl, steps, rfl, ?_, rfl⟩
    · cases is with
      | arrive gets => exact gets.reaches.2
      | own _ => rfl
      | drop id => exact if_pos (Reaction.contains_before steps)
    · cases is with
      | arrive _ => exact fun dropped => absurd dropped Bool.false_ne_true
      | own own =>
        exact fun dropped => absurd ((ownDelivery_spec own).2.symm.trans dropped) (by simp)
      | drop id => exact fun _ => rfl
  | tooLong _ _ => exact .inl ⟨rfl, rfl⟩
  | tooLate _ closed => exact .inl ⟨by simp [State.reaction?, closed], rfl⟩
  | giveBack _ => exact .inl ⟨rfl, rfl⟩
  | leave _ _ aside => exact .inl ⟨if_neg (by simp [aside]), rfl⟩

/-! ## Parts of a host -/

/-- A part of a host that serves requests as a machine of its own. -/
structure Face (s : Settings) where
  {σ α ε ρ : Type}
  machine : Machine σ α ε ρ
  state : State → σ
  /-- The step of its own that a step of the host contains. -/
  label? : State → Label → Option α
  effect : ε → Effect
  work : ρ → Work
  isDrop : α → Bool

/-- A step of the host contains the step `a` of a part, and has its effects. -/
structure Face.Takes {s : Settings} (p : Face s) (st : State) (l : Label) (es : List Effect)
    (st' : State) (a : p.α) (fx : List p.ε) : Prop where
  label : p.label? st l = some a
  caller : l.id? = some (p.machine.name a)
  step : p.machine.step (p.state st) a = some (p.state st', fx)
  effects : loud es = loud (fx.map p.effect)
  drop : p.isDrop a = true → l = .drop (p.machine.name a)
  /-- The caller keeps its slot as long as it is busy there. -/
  place : st'.pool.standing (p.machine.name a) =
    .ofBusy (p.machine.busy (p.state st') (p.machine.name a))

/-- A part of a host: what goes on in the host is a run of its own for it. -/
structure Part (s : Settings) extends Face s where
  start : state (.start s) = machine.start
  /-- It takes a step of its own with a step of the host, or none. -/
  takes : ∀ {st st' l es}, st.Sound → step s st l = some (st', es) →
    (label? st l = none ∧ state st' = state st) ∨ ∃ a fx, toFace.Takes st l es st' a fx
  ending : ∀ {σ σ' a fx}, machine.step σ a = some (σ', fx) →
    Ending (machine.name a) (machine.busy σ' (machine.name a)) (isDrop a)
      ((fx.map effect).filterMap Effect.told?)
  gets : ∀ {st l id r}, Gets st l id (work r) →
    ∃ a, label? st l = some a ∧ machine.name a = id ∧ machine.request? a = some r
  holds : ∀ {st id}, st.Sound → machine.busy (state st) id = true →
    st.pool.standing id = .holding

/-- The dispatcher of a host. -/
def dispatcher (s : Settings) : Part s where
  machine := Dispatch.machine s.dispatch
  state := State.dispatch
  label? := State.dispatch?
  effect := .ofDispatch
  work := .dispatch
  isDrop := Dispatch.Label.isDrop
  start := rfl
  takes := by
    intro st st' l es sound h
    rcases step_move sound h with ⟨rfl, rfl, -⟩ | ⟨id, left, caller, m, after⟩
    · exact .inl ⟨rfl, rfl⟩
    · rcases m.dispatch?_spec sound with ⟨aside, same⟩ | ⟨a, fx, label, takes⟩
      · exact .inl ⟨aside, after.dispatch.trans same⟩
      · obtain ⟨rfl, steps, place, drop, effects⟩ := takes
        rw [← after.dispatch] at steps place
        exact .inr ⟨a, fx, label, caller, steps, effects, drop, after.pool.2.trans place⟩
  ending := by
    intro d d' a fx h
    rw [told_ofDispatch]
    exact (Dispatch.step_ending h).map _
  gets := fun gets => ⟨_, gets.reaches.1, rfl, rfl⟩
  holds := fun sound busy => sound.calls _ busy

/-- The reaction handler of a host. -/
def handler (s : Settings) : Part s where
  machine := Reaction.machine s.reaction
  state := State.reaction
  label? := State.reaction?
  effect := .ofReaction
  work := .handle
  isDrop := Reaction.Label.isDrop
  start := rfl
  takes := by
    intro st st' l es sound h
    rcases step_move sound h with ⟨rfl, rfl, -⟩ | ⟨id, left, caller, m, after⟩
    · exact .inl ⟨rfl, rfl⟩
    · rcases m.reaction?_spec sound with ⟨aside, same⟩ | ⟨a, fx, label, takes⟩
      · exact .inl ⟨aside, after.reaction.trans same⟩
      · obtain ⟨rfl, steps, place, drop, effects⟩ := takes
        rw [← after.reaction] at steps place
        exact .inr ⟨a, fx, label, caller, steps, effects, drop, after.pool.2.trans place⟩
  ending := by
    intro r r' a fx h
    rw [told_ofReaction]
    exact (Reaction.step_ending h).map _
  gets := fun gets => ⟨_, gets.reaches.2, rfl, rfl⟩
  holds := fun sound busy => sound.deliveries _ busy

namespace Part

variable (p : Part s)

/-- The steps of its own that a history contains. -/
def labels (ms : List Moment) : List p.α := ms.filterMap fun m => p.label? m.before m.label

theorem labels_concat (ms : List Moment) (m : Moment) :
    p.labels (ms ++ [m]) = p.labels ms ++ (p.label? m.before m.label).toList := by
  unfold labels
  rw [List.filterMap_append]
  cases h : p.label? m.before m.label <;> simp [h]

/-- What steps of the host are for a part of it. -/
theorem of_steps {h : List (ChangeRelay.Moment p.σ p.α p.ε)} (steps : Steps s st ms st')
    (sound : st.Sound) (run : p.machine.Run h (p.state st)) :
    ∃ h', p.machine.Run (h ++ h') (p.state st') ∧
      h'.map ChangeRelay.Moment.label = p.labels ms := by
  induction steps with
  | stop => exact ⟨[], by rwa [List.append_nil], rfl⟩
  | @next st' st'' ms l es steps hs ih =>
    obtain ⟨h', run, labels⟩ := ih
    rcases p.takes (steps.sound sound).1 hs with ⟨aside, same⟩ | ⟨a, fx, takes⟩
    · refine ⟨h', same ▸ run, ?_⟩
      rw [labels_concat, labels, aside]
      exact (List.append_nil _).symm
    · refine ⟨h' ++ [_], List.append_assoc h h' _ ▸ run.next takes.step, ?_⟩
      rw [labels_concat, List.map_append, labels, takes.label]
      rfl

/-- **What a run of the host is for a part of it.** -/
theorem of_run (run : Run s ms st) : ∃ h, p.machine.Run h (p.state st) ∧
    h.map ChangeRelay.Moment.label = p.labels ms := by
  have begins : p.machine.Run [] (p.state (.start s)) := by
    rw [p.start]
    exact .start
  exact p.of_steps run (sound_start s) begins

end Part

/-- **What a run of the host is for its dispatcher.** -/
theorem dispatch_of_run (run : Run s ms st) :
    ∃ h, (Dispatch.machine s.dispatch).Run h st.dispatch ∧
      h.map ChangeRelay.Moment.label = ms.filterMap Moment.dispatch? :=
  (dispatcher s).of_run run

/-- **What a run of the host is for its reaction handler.** -/
theorem reaction_of_run (run : Run s ms st) :
    ∃ h, (Reaction.machine s.reaction).Run h st.reaction ∧
      h.map ChangeRelay.Moment.label = ms.filterMap Moment.reaction? :=
  (handler s).of_run run

namespace OneSlot

/-- No worker is one worker. -/
def settings : Settings := ⟨Dispatch.Sample.settings, Reaction.Sample.settings, 0, .ofMillis 50⟩

def event : Work := .dispatch (.single (Dispatch.Sample.change 5 "c"))

/-- Request 0 is dropped at work, 1 when it was handed the slot of 0 and 2 while it waits. Request 3
gets the slot then and is answered though the host is shut down, and 4 waits for a slot until then.
Request 5 comes too late. -/
def labels : List Label :=
  [.request 0 event, .request 1 (.handle (Reaction.Sample.invocation "x")), .request 2 event,
    .request 3 event, .dispatch (.lookup 0), .drop 0, .drop 2, .drop 1, .resume 3, .request 4 event,
    .dispatch (.lookup 3), .shutdown, .resume 4, .request 5 event, .dispatch (.join 3),
    .dispatch (.proceed 3), .dispatch (.answer 3 .taken)]

end OneSlot

end ChangeRelay.Host
