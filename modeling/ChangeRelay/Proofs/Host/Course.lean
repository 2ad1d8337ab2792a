import ChangeRelay.Proofs.Host.History

/-!
# From a request to its answer

A request comes in and is in progress for a while, and meanwhile anybody takes steps. `Span` is that
time. A request that gets no slot in it has left no trace by the end and is refused, unless it is
dropped; one that gets a slot is never refused, and at its end is told what the dispatcher or the
reaction handler has for it.

* **`course_of_span`**: so it stands with a request at every moment of its time.

Each part of a host is a machine of its own, so the answer is that of a run of the machine:
`Machine.Tracks` follows a call through such a run, and `Machine.Yields` is what comes of it.
-/

namespace ChangeRelay

namespace Machine

variable {σ α ε ρ : Type} (M : Machine σ α ε ρ)

/-- A run under these labels leads to `st` and has the call `id` with the request `r` in it. -/
def Tracks (ls : List α) (st : σ) (id : CallId) (r : ρ) : Prop :=
  ∃ h, M.Run h st ∧ h.map Moment.label = ls ∧ (M.arrivals h)[M.numberOf h id]? = some (id, r)

/-- In the run under these labels, this comes of the call `id` with the request `r`. -/
def Yields (ls : List α) (id : CallId) (r : ρ) (e : ε) : Prop :=
  ∃ h st, M.Run h st ∧ h.map Moment.label = ls ∧
    (M.arrivals h)[M.numberOf h id]? = some (id, r) ∧ e ∈ Moment.effectsOf h (M.numberOf h id)

variable {M} {h : List (Moment σ α ε)} {ls : List α} {st st' : σ} {a : α} {fx : List ε}
variable {id : CallId} {r : ρ}

/-- What comes of the last step of a run. -/
theorem yields_last (run : M.Run h st) (hs : M.step st a = some (st', fx))
    (arrival : (M.arrivals (h ++ [M.moment h st a fx]))[
      M.numberOf (h ++ [M.moment h st a fx]) (M.name a)]? = some (M.name a, r)) {e : ε}
    (he : e ∈ fx) : M.Yields (h.map Moment.label ++ [a]) (M.name a) r e := by
  refine ⟨_, st', run.next hs, List.map_append, arrival, ?_⟩
  have own : (M.moment h st a fx).call = M.callOf h a := rfl
  rw [numberOf_next_name, Moment.effectsOf_concat, if_pos own]
  exact List.mem_append_right _ he

/-- A call comes into a run. -/
theorem Run.tracks (run : M.Run h st) (hs : M.step st a = some (st', fx))
    (new : M.request? a = some r) : M.Tracks (h.map Moment.label ++ [a]) st' (M.name a) r ∧
      ∀ e ∈ fx, M.Yields (h.map Moment.label ++ [a]) (M.name a) r e :=
  ⟨⟨_, run.next hs, List.map_append, arrivals_next_self new⟩,
    fun _ he => yields_last run hs (arrivals_next_self new) he⟩

/-- A call stays in a run, whoever takes the next step. -/
theorem Tracks.step (t : M.Tracks ls st id r) (hs : M.step st a = some (st', fx))
    (old : M.request? a = none ∨ id ≠ M.name a) : M.Tracks (ls ++ [a]) st' id r ∧
      (M.name a = id → ∀ e ∈ fx, M.Yields (ls ++ [a]) id r e) := by
  obtain ⟨h, run, rfl, arrival⟩ := t
  have kept : (M.arrivals (h ++ [M.moment h st a fx]))[
      M.numberOf (h ++ [M.moment h st a fx]) id]? = some (id, r) := by
    rw [numberOf_next id old]
    exact arrivals_mono h _ arrival
  refine ⟨⟨_, run.next hs, List.map_append, kept⟩, ?_⟩
  rintro rfl e he
  exact yields_last run hs kept he

end Machine

namespace Host

/-! ## The time of a request -/

/-- A request comes in, and while it is in progress anybody takes steps. -/
inductive Span (s : Settings) (st : State) (id : CallId) (work : Work) :
    List Moment → State → Prop
  | comes {st' : State} {es : List Effect} (h : step s st (.request id work) = some (st', es)) :
      Span s st id work [⟨.request id work, st, es, st'⟩] st'
  | goesOn {ms : List Moment} {st' st'' : State} {l : Label} {es : List Effect}
      (span : Span s st id work ms st') (busy : st'.contains id = true)
      (h : step s st' l = some (st'', es)) :
      Span s st id work (ms ++ [⟨l, st', es, st''⟩]) st''

/-- A request gets its slot. -/
def Moment.Grants (m : Moment) (id : CallId) (work : Work) : Prop := Gets m.before m.label id work

/-- Nothing comes of a step, but that its request is refused. -/
structure Moment.Traceless (m : Moment) (id : CallId) : Prop where
  dispatch : m.after.dispatch = m.before.dispatch
  reaction : m.after.reaction = m.before.reaction
  effects : ∀ e ∈ loud m.effects, ∃ refusal, e = .refuse id refusal

/-- A request is refused: it has waited as long as it may, or the pool is closed. -/
inductive Moment.Refuses (m : Moment) (id : CallId) : Pool.Refusal → Prop
  | busy (waited : m.label = .expire id) (opened : m.before.pool.closed = false)
      (told : loud m.effects = [.refuse id (.busy m.before.pool.workers m.before.pool.wait)]) :
      Refuses m id (.busy m.before.pool.workers m.before.pool.wait)
  | closed (closed : m.before.pool.closed = true) (told : loud m.effects = [.refuse id .closed]) :
      Refuses m id .closed

/-- A request has got no slot yet, and left no trace. -/
structure Unseen (id : CallId) (work : Work) (ms : List Moment) : Prop where
  noSlot : ∀ m ∈ ms, ¬m.Grants id work
  traceless : ∀ m ∈ ms, m.label.id? = some id → m.Traceless id

/-- A request is not refused. -/
def Unrefused (id : CallId) (ms : List Moment) : Prop :=
  ∀ m ∈ ms, ∀ refusal, .refuse id refusal ∉ m.effects

/-- A request has got its slot, and is not refused. -/
structure Seen (id : CallId) (work : Work) (ms : List Moment) : Prop where
  slot : ∃ m ∈ ms, m.Grants id work
  unrefused : Unrefused id ms

variable {s : Settings} {st st' : State} {l : Label} {es : List Effect} {id : CallId}
variable {work : Work} {ms : List Moment} {m : Moment}

theorem Span.steps (span : Span s st id work ms st') : Steps s st ms st' := by
  induction span with
  | comes h => exact Steps.stop.next h
  | goesOn _ _ h ih => exact ih.next h

theorem unseen_nil : Unseen id work [] where
  noSlot := by simp
  traceless := by simp

theorem Unseen.concat (unseen : Unseen id work ms) (noSlot : ¬m.Grants id work)
    (traceless : m.label.id? = some id → m.Traceless id) : Unseen id work (ms ++ [m]) where
  noSlot := List.forall_mem_append.mpr ⟨unseen.noSlot, List.forall_mem_singleton.mpr noSlot⟩
  traceless :=
    List.forall_mem_append.mpr ⟨unseen.traceless, List.forall_mem_singleton.mpr traceless⟩

theorem Unrefused.concat (unrefused : Unrefused id ms)
    (last : ∀ refusal, .refuse id refusal ∉ m.effects) : Unrefused id (ms ++ [m]) :=
  List.forall_mem_append.mpr ⟨unrefused, List.forall_mem_singleton.mpr last⟩

theorem Seen.concat (seen : Seen id work ms) (last : ∀ refusal, .refuse id refusal ∉ m.effects) :
    Seen id work (ms ++ [m]) := by
  obtain ⟨⟨m', hm, slot⟩, unrefused⟩ := seen
  exact ⟨⟨m', List.mem_append_left _ hm, slot⟩, unrefused.concat last⟩

/-! ## Steps of others -/

theorem Gets.caller (gets : Gets st l id work) : l.id? = some id := by
  cases gets <;> rfl

/-- A request is left alone by the steps of others. -/
theorem step_of_other (sound : st.Sound) (h : step s st l = some (st', es))
    (other : l.id? ≠ some id) : st'.pool.standing id = st.pool.standing id ∧
      st'.waiting.get? id = st.waiting.get? id := by
  rcases step_move sound h with ⟨-, rfl, -⟩ | ⟨id', left, caller, m, after⟩
  · exact ⟨rfl, rfl⟩
  · have ne : id ≠ id' := fun same => other (same ▸ caller)
    refine ⟨after.pool.1.others id ne, ?_⟩
    rw [after.waiting, if_neg ne]

theorem mem_loud {e : Effect} (he : e.isWake = false) : e ∈ loud es ↔ e ∈ es := by
  simp [loud, he]

theorem refuse_not_mem_dispatch (fx : List Dispatch.Effect) (id : CallId)
    (refusal : Pool.Refusal) : .refuse id refusal ∉ loud (fx.map .ofDispatch) := by
  intro refused
  obtain ⟨e, -, he⟩ := List.mem_map.mp (List.mem_filter.mp refused).1
  cases e <;> exact absurd he (by simp [Effect.ofDispatch])

theorem refuse_not_mem_reaction (fx : List Reaction.Effect) (id : CallId)
    (refusal : Pool.Refusal) : .refuse id refusal ∉ loud (fx.map .ofReaction) := by
  intro refused
  obtain ⟨e, -, he⟩ := List.mem_map.mp (List.mem_filter.mp refused).1
  cases e <;> exact absurd he (by simp [Effect.ofReaction])

/-- Who is refused had no slot and gets none. -/
theorem Move.refuses {left : Left} {id' : CallId} (m : Move s st l id' left es)
    {refusal : Pool.Refusal} (refused : .refuse id refusal ∈ es) :
    id = id' ∧ st.pool.standing id ≠ .holding ∧ ∀ work, ¬Gets st l id work := by
  cases m with
  | turnAway new closed =>
    obtain ⟨rfl, -⟩ := Effect.refuse.inj (List.mem_singleton.mp refused)
    refine ⟨rfl, by simp [new], ?_⟩
    intro work gets
    exact absurd (closed.symm.trans gets.opened) (by simp)
  | queue _ _ _ => exact absurd refused List.not_mem_nil
  | keep _ => exact absurd (List.mem_singleton.mp refused) (by simp)
  | dispatch _ _ => exact absurd refused (refuse_not_mem_dispatch _ _ _)
  | reaction _ _ => exact absurd refused (refuse_not_mem_reaction _ _ _)
  | tooLong inLine _ =>
    obtain ⟨rfl, -⟩ := Effect.refuse.inj (List.mem_singleton.mp refused)
    have waits := Pool.standing_eq_waiting_iff.mpr (.inl inLine)
    refine ⟨rfl, by simp [waits], ?_⟩
    rintro work ⟨⟩
  | tooLate waits closed =>
    obtain ⟨rfl, -⟩ := Effect.refuse.inj (List.mem_singleton.mp refused)
    refine ⟨rfl, by simp [waits], ?_⟩
    intro work gets
    exact absurd (closed.symm.trans gets.opened) (by simp)
  | giveBack _ => exact absurd refused List.not_mem_nil
  | leave _ _ _ => exact absurd refused List.not_mem_nil

theorem step_refuses (sound : st.Sound) (h : step s st l = some (st', es))
    {refusal : Pool.Refusal} (refused : .refuse id refusal ∈ es) :
    l.id? = some id ∧ st.pool.standing id ≠ .holding ∧ ∀ work, ¬Gets st l id work := by
  have refused := (mem_loud (e := .refuse id refusal) rfl).mpr refused
  rcases step_move sound h with ⟨-, -, effects⟩ | ⟨id', left, caller, m, -⟩
  · rw [effects] at refused
    exact absurd (List.mem_singleton.mp refused) (by simp)
  · obtain ⟨rfl, out⟩ := m.refuses refused
    exact ⟨caller, out⟩

/-! ## Steps of a request that has no slot -/

theorem Gets.work_eq {work' : Work} (gets : Gets st l id work')
    (stands : st.pool.standing id = .waiting) (wants : st.waiting.get? id = some work) :
    work' = work := by
  cases gets with
  | atOnce new _ => exact absurd (new.symm.trans stands) (by simp)
  | called _ _ waits => exact Option.some.inj (waits.symm.trans wants)

/-- Who takes a step in the dispatcher without a call there gets its slot. -/
theorem InDispatch.gets {l' : Dispatch.Label} {r : Dispatch.State × List Dispatch.Effect}
    (is : InDispatch st l l') (steps : Dispatch.step s.dispatch st.dispatch l' = some r)
    (idle : st.dispatch.calls.contains l'.id = false) : ∃ work, Gets st l l'.id work := by
  have before := (Dispatch.contains_before steps).symm.trans idle
  cases is with
  | arrive gets => exact ⟨_, gets⟩
  | own own => exact absurd ((own_spec own).1.symm.trans before) (by simp)
  | drop id => exact absurd before (by simp [Dispatch.Label.request?])

/-- Who takes a step in the reaction handler without a delivery there gets its slot. -/
theorem InReaction.gets {l' : Reaction.Label} {r : Reaction.State × List Reaction.Effect}
    (is : InReaction st l l') (steps : Reaction.step s.reaction st.reaction l' = some r)
    (aside : st.reaction.deliveries.contains l'.id = false) : ∃ work, Gets st l l'.id work := by
  have before := (Reaction.contains_before steps).symm.trans aside
  cases is with
  | arrive gets => exact ⟨_, gets⟩
  | own own => exact absurd ((ownDelivery_spec own).1.symm.trans before) (by simp)
  | drop id => exact absurd before (by simp [Reaction.Label.request?])

/-- What becomes of a request that gets no slot at a step of its own: it is refused, or dropped. -/
structure Out (m : Moment) (id : CallId) (work : Work) : Prop where
  noSlot : ¬m.Grants id work
  traceless : m.Traceless id
  gone : m.after.contains id = false
  why : m.label = .drop id ∨ ∃ refusal, m.Refuses id refusal

theorem After.traceless {place : Standing} {work? : Option Work}
    (after : After st id (st.left place work?) st')
    (effects : ∀ e ∈ loud es, ∃ refusal, e = .refuse id refusal) :
    Moment.Traceless ⟨l, st, es, st'⟩ id :=
  ⟨after.dispatch, after.reaction, effects⟩

/-- **A request that waits** gets its slot, is refused, or is dropped. -/
theorem step_of_waiting (sound : st.Sound) (stands : st.pool.standing id = .waiting)
    (wants : st.waiting.get? id = some work) (h : step s st l = some (st', es))
    (own : l.id? = some id) : Gets st l id work ∨ Out ⟨l, st, es, st'⟩ id work := by
  rcases step_move sound h with ⟨rfl, -, -⟩ | ⟨id', left, caller, m, after⟩
  · exact absurd own (by simp [Label.id?])
  obtain rfl := Option.some.inj (own.symm.trans caller)
  have out : st.pool.standing id ≠ .holding := by simp [stands]
  have idle := sound.idle out
  have aside := sound.aside out
  have known : ∀ {work'}, Gets st l id work' → Gets st l id work := by
    intro work' gets
    rwa [gets.work_eq stands wants] at gets
  generalize he : loud es = fx at m
  cases m with
  | turnAway new _ => exact absurd (new.symm.trans stands) (by simp)
  | queue new _ _ => exact absurd (new.symm.trans stands) (by simp)
  | keep gets => exact .inl (known gets)
  | dispatch is steps =>
    obtain ⟨work', gets⟩ := is.gets steps idle
    exact .inl (known gets)
  | reaction is steps =>
    obtain ⟨work', gets⟩ := is.gets steps aside
    exact .inl (known gets)
  | tooLong inLine opened =>
    have told : loud es = [.refuse id (.busy st.pool.workers st.pool.wait)] := he
    have gone := gone_iff.mpr after.pool.2
    refine .inr ⟨?_, after.traceless (by simp [told]), gone, .inr ⟨_, .busy rfl opened told⟩⟩
    intro gets
    cases gets
  | tooLate _ closed =>
    have told : loud es = [.refuse id .closed] := he
    have gone := gone_iff.mpr after.pool.2
    refine .inr ⟨?_, after.traceless (by simp [told]), gone, .inr ⟨_, .closed closed told⟩⟩
    intro gets
    exact absurd (closed.symm.trans gets.opened) (by simp)
  | giveBack keeps =>
    simp only [State.keeps, decide_eq_true_eq] at keeps
    have holds := (Pool.standing_eq_holding_iff sound.pool).mpr keeps.1
    exact absurd (holds.symm.trans stands) (by simp)
  | leave _ _ _ =>
    have gone := gone_iff.mpr after.pool.2
    refine .inr ⟨?_, after.traceless (by simp [he]), gone, .inl rfl⟩
    intro gets
    cases gets

/-- **A request that comes in** gets its slot, is refused, or waits. -/
theorem step_of_request (sound : st.Sound)
    (h : step s st (.request id work) = some (st', es)) :
    Gets st (.request id work) id work ∨ Out ⟨.request id work, st, es, st'⟩ id work ∨
    Unseen id work [⟨.request id work, st, es, st'⟩] ∧ st'.pool.standing id = .waiting ∧
      st'.waiting.get? id = some work ∧ loud es = [] := by
  rcases step_move sound h with ⟨wrong, -, -⟩ | ⟨id', left, caller, m, after⟩
  · exact absurd wrong (by simp)
  obtain rfl : id = id' := Option.some.inj caller
  generalize he : loud es = fx at m ⊢
  cases m with
  | turnAway new closed =>
    have told : loud es = [.refuse id .closed] := he
    have gone := gone_iff.mpr after.pool.2
    refine .inr (.inl ⟨?_, after.traceless (by simp [told]), gone, .inr ⟨_, .closed closed told⟩⟩)
    intro gets
    exact absurd (closed.symm.trans gets.opened) (by simp)
  | queue new opened full =>
    have wants := after.waiting id
    rw [if_pos rfl] at wants
    have noSlot : ¬Gets st (.request id work) id work := by
      rintro (⟨-, -, room⟩ | _)
      omega
    have unseen := unseen_nil.concat (m := ⟨.request id work, st, es, st'⟩) noSlot fun _ =>
      after.traceless (by simp [he])
    exact .inr (.inr ⟨unseen, after.pool.2, wants, rfl⟩)
  | keep gets =>
    cases gets with
    | atOnce new slot => exact .inl (.atOnce new slot)
  | dispatch is _ =>
    cases is with
    | arrive gets =>
      cases gets with
      | atOnce new slot => exact .inl (.atOnce new slot)
  | reaction is _ =>
    cases is with
    | arrive gets =>
      cases gets with
      | atOnce new slot => exact .inl (.atOnce new slot)

/-! ## Steps of a request that has its slot -/

namespace Part

variable (p : Part s) {hist : List Moment} {r : p.ρ}

/-- The answer of a part to a request, with the last step of its time. -/
structure Answers (hist : List Moment) (m : Moment) (id : CallId) (r : p.ρ)
    (reply : Reply) : Prop where
  /-- Nobody else is told anything, and nothing else. -/
  told : m.effects.filterMap Effect.told? = [(id, reply)]
  /-- So the part itself answers it. -/
  yields : ∃ e, p.effect e = .reply id reply ∧
    p.machine.Yields (p.labels (hist ++ [m])) id r e

/-- What becomes of a request at a step, once it has its slot: it goes on, or it is over. -/
inductive Goes (hist : List Moment) (m : Moment) (id : CallId) (r : p.ρ) : Prop
  | works (busy : p.machine.busy (p.state m.after) id = true)
      (tracks : p.machine.Tracks (p.labels (hist ++ [m])) (p.state m.after) id r)
  | answered {reply : Reply} (gone : m.after.contains id = false)
      (answers : p.Answers hist m id r reply)
  | dropped (gone : m.after.contains id = false) (dropped : m.label = .drop id)

variable {p}

theorem told?_eq_some {e : Effect} {reply : Reply} (h : e.told? = some (id, reply)) :
    e = .reply id reply := by
  cases e with
  | reply id' reply' =>
    obtain ⟨rfl, rfl⟩ := Prod.mk.inj (Option.some.inj h)
    rfl
  | _ => exact absurd h (by simp [Effect.told?])

theorem labels_next (p : Part s) (hist : List Moment) {a : p.α}
    (label : p.label? m.before m.label = some a) :
    p.labels (hist ++ [m]) = p.labels hist ++ [a] := by
  rw [labels_concat, label]
  rfl

/-- A step of the request's own. -/
theorem goes_of_takes {a : p.α} {fx : List p.ε} {m : Moment}
    (takes : p.Takes m.before m.label m.effects m.after a fx)
    (tracks : p.machine.Tracks (p.labels (hist ++ [m])) (p.state m.after) (p.machine.name a) r ∧
      ∀ e ∈ fx, p.machine.Yields (p.labels (hist ++ [m])) (p.machine.name a) r e) :
    p.Goes hist m (p.machine.name a) r := by
  have ending := p.ending takes.step
  have place := takes.place
  have drop := takes.drop
  have told : m.effects.filterMap Effect.told? = (fx.map p.effect).filterMap Effect.told? := by
    rw [← told_loud, takes.effects, told_loud]
  generalize hb : p.machine.busy (p.state m.after) (p.machine.name a) = busy at ending place
  generalize hd : p.isDrop a = dropped at ending drop
  generalize ht : (fx.map p.effect).filterMap Effect.told? = tells at ending told
  cases ending with
  | goesOn => exact .works hb tracks.1
  | dropped => exact .dropped (gone_iff.mpr place) (drop rfl)
  | told reply =>
    refine .answered (gone_iff.mpr place) ⟨told, ?_⟩
    have mem : (p.machine.name a, reply) ∈ (fx.map p.effect).filterMap Effect.told? := by
      rw [ht]
      exact List.mem_singleton_self _
    obtain ⟨e', he', tells⟩ := List.mem_filterMap.mp mem
    obtain ⟨e, he, rfl⟩ := List.mem_map.mp he'
    exact ⟨e, told?_eq_some tells, tracks.2 e he⟩

variable {es : List Effect}

/-- **A request gets its slot**, and reaches what it is for. -/
theorem goes_of_gets (run : Run s hist st) (h : step s st l = some (st', es))
    (gets : Gets st l id (p.work r)) : p.Goes hist ⟨l, st, es, st'⟩ id r := by
  obtain ⟨a, label, rfl, new⟩ := p.gets gets
  obtain ⟨core, runs, labels⟩ := p.of_run run
  rcases p.takes (sound_of_run run) h with ⟨none, -⟩ | ⟨a', fx, takes⟩
  · exact absurd (label.symm.trans none) (by simp)
  obtain rfl := Option.some.inj (label.symm.trans takes.label)
  have next := labels_next (m := ⟨l, st, es, st'⟩) p hist takes.label
  refine goes_of_takes takes ?_
  rw [next, ← labels]
  exact runs.tracks takes.step new

/-- **A request that is at work** goes on until it is over, whoever takes the next step. -/
theorem goes_of_busy (sound : st.Sound) (busy : p.machine.busy (p.state st) id = true)
    (tracks : p.machine.Tracks (p.labels hist) (p.state st) id r)
    (h : step s st l = some (st', es)) : p.Goes hist ⟨l, st, es, st'⟩ id r := by
  rcases p.takes sound h with ⟨none, same⟩ | ⟨a, fx, takes⟩
  · have labels : p.labels (hist ++ [⟨l, st, es, st'⟩]) = p.labels hist := by
      rw [labels_concat, none]
      exact List.append_nil _
    rw [← same] at busy tracks
    exact .works busy (labels ▸ tracks)
  · have next := labels_next (m := ⟨l, st, es, st'⟩) p hist takes.label
    by_cases own : id = p.machine.name a
    · subst own
      have old : p.machine.request? a = none := by
        have before := p.machine.busy_before takes.step
        exact Option.isNone_iff_eq_none.mp (before.symm.trans busy)
      refine goes_of_takes takes ?_
      rw [next]
      have tracks := tracks.step takes.step (.inl old)
      exact ⟨tracks.1, tracks.2 rfl⟩
    · have busy' := (p.machine.busy_other takes.step own).trans busy
      exact .works busy' (next ▸ (tracks.step takes.step (.inr own)).1)

end Part

/-! ## Ends -/

theorem InDispatch.isDrop {l' : Dispatch.Label} (is : InDispatch st (.drop id) l') :
    l'.isDrop = true := by
  cases is with
  | arrive gets => cases gets
  | drop _ => rfl

theorem InReaction.isDrop {l' : Reaction.Label} (is : InReaction st (.drop id) l') :
    l'.isDrop = true := by
  cases is with
  | arrive gets => cases gets
  | drop _ => rfl

/-- Who is dropped is gone. -/
theorem gone_of_drop (sound : st.Sound) (h : step s st (.drop id) = some (st', es)) :
    st'.contains id = false := by
  rcases step_move sound h with ⟨wrong, -, -⟩ | ⟨id', left, caller, m, after⟩
  · exact absurd wrong (by simp)
  obtain rfl : id = id' := Option.some.inj caller
  refine gone_iff.mpr (after.pool.2.trans ?_)
  generalize loud es = fx at m
  cases m with
  | keep gets => cases gets
  | dispatch is steps =>
    have ending := Dispatch.step_ending steps
    rw [is.isDrop] at ending
    rw [ending.of_dropped.1]
    rfl
  | reaction is steps =>
    have ending := Reaction.step_ending steps
    rw [is.isDrop] at ending
    rw [ending.of_dropped.1]
    rfl
  | leave _ _ _ => rfl

/-- Who is told something has taken a step, was not dropped, and is gone. -/
theorem gone_of_told (sound : st.Sound) (h : step s st l = some (st', es)) {reply : Reply}
    (told : (id, reply) ∈ es.filterMap Effect.told?) :
    l.id? = some id ∧ l ≠ .drop id ∧ st'.contains id = false := by
  rw [← told_loud] at told
  rcases step_move sound h with ⟨-, -, effects⟩ | ⟨id', left, caller, m, after⟩
  · rw [effects] at told
    exact absurd told (by simp [Effect.told?])
  generalize loud es = fx at m told
  cases m with
  | dispatch is steps =>
    rw [told_loud, told_ofDispatch] at told
    obtain ⟨rfl, ended, stays⟩ := ((Dispatch.step_ending steps).map Reply.dispatch).of_told told
    refine ⟨caller, ?_, gone_iff.mpr (after.pool.2.trans (by rw [ended]; rfl))⟩
    rintro rfl
    exact absurd (is.isDrop.symm.trans stays) (by simp)
  | reaction is steps =>
    rw [told_loud, told_ofReaction] at told
    obtain ⟨rfl, ended, stays⟩ := ((Reaction.step_ending steps).map Reply.invocation).of_told told
    refine ⟨caller, ?_, gone_iff.mpr (after.pool.2.trans (by rw [ended]; rfl))⟩
    rintro rfl
    exact absurd (is.isDrop.symm.trans stays) (by simp)
  | _ => exact absurd told (by simp [Effect.told?])

/-! ## The whole time -/

/-- How it stands with a request at a moment of its time, with the history `hist` before it. -/
inductive Course (p : Part s) (hist : List Moment) (id : CallId) (r : p.ρ) (ms : List Moment)
    (st : State) : Prop
  | waits (stands : st.pool.standing id = .waiting) (wants : st.waiting.get? id = some (p.work r))
      (unseen : Unseen id (p.work r) ms) (unrefused : Unrefused id ms)
  | works (busy : p.machine.busy (p.state st) id = true)
      (tracks : p.machine.Tracks (p.labels (hist ++ ms)) (p.state st) id r)
      (seen : Seen id (p.work r) ms)
  | refused {pre : List Moment} {m : Moment} {refusal : Pool.Refusal} (split : ms = pre ++ [m])
      (gone : st.contains id = false) (unseen : Unseen id (p.work r) ms)
      (refuses : m.Refuses id refusal)
  | dropped {pre : List Moment} {m : Moment} (split : ms = pre ++ [m])
      (gone : st.contains id = false) (fair : Unseen id (p.work r) ms ∨ Seen id (p.work r) ms)
      (drops : m.label = .drop id)
  | answered {pre : List Moment} {m : Moment} {reply : Reply} (split : ms = pre ++ [m])
      (gone : st.contains id = false) (seen : Seen id (p.work r) ms)
      (answers : p.Answers (hist ++ pre) m id r reply)

theorem Course.of_out {p : Part s} {hist : List Moment} {r : p.ρ}
    (unseen : Unseen id (p.work r) ms) (out : Out m id (p.work r)) :
    Course p hist id r (ms ++ [m]) m.after := by
  have unseen := unseen.concat out.noSlot fun _ => out.traceless
  rcases out.why with drops | ⟨refusal, refuses⟩
  · exact .dropped rfl out.gone (.inl unseen) drops
  · exact .refused rfl out.gone unseen refuses

/-- A request that has just got its slot. -/
theorem seen_of_gets (sound : st.Sound) (h : step s st l = some (st', es))
    (gets : Gets st l id work) (unrefused : Unrefused id ms) :
    Seen id work (ms ++ [⟨l, st, es, st'⟩]) where
  slot := ⟨_, List.mem_append_right _ (List.mem_singleton_self _), gets⟩
  unrefused := unrefused.concat fun _ refused => (step_refuses sound h refused).2.2 work gets

/-- A request that has its slot now, or has had it. -/
theorem Course.of_goes {p : Part s} {hist : List Moment} {r : p.ρ}
    (seen : Seen id (p.work r) (ms ++ [m])) (goes : p.Goes (hist ++ ms) m id r) :
    Course p hist id r (ms ++ [m]) m.after := by
  cases goes with
  | works busy tracks =>
    rw [List.append_assoc] at tracks
    exact .works busy tracks seen
  | answered gone answers => exact .answered rfl gone seen answers
  | dropped gone drops => exact .dropped rfl gone (.inr seen) drops

/-- **So it stands with a request at every moment of its time.** -/
theorem course_of_span (p : Part s) {hist : List Moment} (run : Run s hist st) {r : p.ρ}
    (span : Span s st id (p.work r) ms st') : Course p hist id r ms st' := by
  induction span with
  | @comes st' es h =>
    have sound := sound_of_run run
    rcases step_of_request sound h with gets | out | ⟨unseen, stands, wants, quiet⟩
    · have unrefused : Unrefused id [] := fun _ hm => absurd hm List.not_mem_nil
      refine .of_goes (seen_of_gets sound h gets unrefused) ?_
      rw [List.append_nil]
      exact Part.goes_of_gets run h gets
    · exact .of_out unseen_nil out
    · refine .waits stands wants unseen (List.forall_mem_singleton.mpr fun refusal refused => ?_)
      have refused := (mem_loud (e := .refuse id refusal) rfl).mpr refused
      exact absurd refused (by simp [quiet])
  | @goesOn ms st' st'' l es span busy h ih =>
    have run' := Steps.append run span.steps
    have sound := sound_of_run run'
    cases ih with
    | waits stands wants unseen unrefused =>
      by_cases own : l.id? = some id
      · rcases step_of_waiting sound stands wants h own with gets | out
        · exact .of_goes (seen_of_gets sound h gets unrefused) (Part.goes_of_gets run' h gets)
        · exact .of_out unseen out
      · obtain ⟨stands', wants'⟩ := step_of_other sound h own
        refine .waits (stands'.trans stands) (wants'.trans wants) ?_ ?_
        · exact unseen.concat (fun gets => own gets.caller) (fun same => absurd same own)
        · exact unrefused.concat fun refusal refused => own (step_refuses sound h refused).1
    | works busy tracks seen =>
      have holds := p.holds sound busy
      have seen := seen.concat (m := ⟨l, st', es, st''⟩) fun refusal refused =>
        (step_refuses sound h refused).2.1 holds
      exact .of_goes seen (Part.goes_of_busy sound busy tracks h)
    | refused _ gone _ _ => exact absurd (gone.symm.trans busy) Bool.false_ne_true
    | dropped _ gone _ _ => exact absurd (gone.symm.trans busy) Bool.false_ne_true
    | answered _ gone _ _ => exact absurd (gone.symm.trans busy) Bool.false_ne_true

/-- A request that gets its slot at a moment of its time gets it for what it came in with. -/
theorem Span.grants_eq (p : Part s) {hist : List Moment} (run : Run s hist st) {r : p.ρ}
    (span : Span s st id (p.work r) ms st') : ∀ m ∈ ms, m.Grants id work → work = p.work r := by
  induction span with
  | comes h =>
    refine List.forall_mem_singleton.mpr ?_
    rintro ⟨⟩
    rfl
  | @goesOn ms st' st'' l es span busy h ih =>
    refine List.forall_mem_append.mpr ⟨ih, List.forall_mem_singleton.mpr fun gets => ?_⟩
    have sound := sound_of_run (Steps.append run span.steps)
    cases course_of_span p run span with
    | waits stands wants _ _ => exact gets.work_eq stands wants
    | works busy _ _ => exact absurd (p.holds sound busy) gets.not_holding
    | refused _ gone _ _ => exact absurd (gone.symm.trans busy) Bool.false_ne_true
    | dropped _ gone _ _ => exact absurd (gone.symm.trans busy) Bool.false_ne_true
    | answered _ gone _ _ => exact absurd (gone.symm.trans busy) Bool.false_ne_true

/-- Whoever is told something in its time is told it at the end. -/
theorem Span.last (sound : st.Sound) (span : Span s st id work ms st') {reply : Reply}
    (hm : m ∈ ms) (told : (id, reply) ∈ m.effects.filterMap Effect.told?) :
    ∃ pre, ms = pre ++ [m] ∧ m.after = st' := by
  induction span with
  | comes h =>
    obtain rfl := List.mem_singleton.mp hm
    exact ⟨[], rfl, rfl⟩
  | @goesOn ms st' st'' l es span busy h ih =>
    rcases List.mem_append.mp hm with early | late
    · obtain ⟨-, -, rfl⟩ := ih early
      obtain ⟨sound', h'⟩ := span.steps.moment sound m early
      exact absurd ((gone_of_told sound' h' told).2.2.symm.trans busy) Bool.false_ne_true
    · obtain rfl := List.mem_singleton.mp late
      exact ⟨ms, rfl, rfl⟩

theorem Moment.Refuses.quiet {refusal : Pool.Refusal} (refuses : m.Refuses id refusal) :
    m.effects.filterMap Effect.told? = [] := by
  rw [← told_loud]
  cases refuses with
  | busy _ _ told =>
    rw [told]
    rfl
  | closed _ told =>
    rw [told]
    rfl

/-- **What a request is told** in its time is the answer of its part, and ends its time. -/
theorem Span.answers (p : Part s) {hist : List Moment} (run : Run s hist st) {r : p.ρ}
    (span : Span s st id (p.work r) ms st') {reply : Reply} (hm : m ∈ ms)
    (told : (id, reply) ∈ m.effects.filterMap Effect.told?) :
    st'.contains id = false ∧ ∃ pre, ms = pre ++ [m] ∧ p.Answers (hist ++ pre) m id r reply := by
  have sound := sound_of_run run
  obtain ⟨sound', h⟩ := span.steps.moment sound m hm
  obtain ⟨-, stays, gone⟩ := gone_of_told sound' h told
  obtain ⟨pre, rfl, rfl⟩ := span.last sound hm told
  refine ⟨gone, pre, rfl, ?_⟩
  have away := gone_iff.mp gone
  cases course_of_span p run span with
  | waits stands _ _ _ => exact absurd (away.symm.trans stands) (by simp)
  | works busy _ _ =>
    have holds := p.holds (sound_of_run (Steps.append run span.steps)) busy
    exact absurd (away.symm.trans holds) (by simp)
  | refused split _ _ refuses =>
    obtain ⟨rfl, same⟩ := List.append_inj' split rfl
    obtain rfl := List.cons.inj same |>.1
    rw [refuses.quiet] at told
    exact absurd told List.not_mem_nil
  | dropped split _ _ drops =>
    obtain ⟨rfl, same⟩ := List.append_inj' split rfl
    obtain rfl := List.cons.inj same |>.1
    exact absurd drops stays
  | answered split _ _ answers =>
    obtain ⟨rfl, same⟩ := List.append_inj' split rfl
    obtain rfl := List.cons.inj same |>.1
    rw [answers.told] at told
    obtain ⟨-, rfl⟩ := Prod.mk.inj (List.mem_singleton.mp told)
    exact answers

end Host

end ChangeRelay
