import ChangeRelay.Proofs.Dispatch.Ending
import ChangeRelay.Proofs.Dispatch.Turns

/-!
# Before the turn of a call

A call that has not had its turn has done nothing but come in, look for its stream and join the
line, and the pipeline and the other calls have seen nothing of it. Calls that never have a turn
are the ones that are dropped by then, and those that are turned away: the empty ones, the ones
without a source and the ones for which there is no room.

* **`waits_of_run`**: what a call has done before its turn.
* **`answered_of_run`**: a call that is answered had its turn, or is turned away.
* **`keeps_of_run`**: a call that finds no room changes no stream.
-/

namespace ChangeRelay.Dispatch

/-- What a call does before its turn, once it has come in. -/
def Phase.way (id : CallId) : Phase → List Label
  | .arrived => []
  | .found => [.lookup id]
  | _ => [.lookup id, .join id]

/-- What a call has done that came in with the request `r` and has not had its turn. -/
structure Waits (s : Settings) (h : History) (id : CallId) (call : Call) (r : Request) : Prop where
  arrival : ((machine s).arrivals h)[(machine s).numberOf h id]? = some (id, r)
  labels : Moment.labelsOf h ((machine s).numberOf h id) = .arrive id r :: call.phase.way id
  effects : Moment.effectsOf h ((machine s).numberOf h id) = arrivalLines r

/-- A step changes no stream. -/
def Keeps (s : Settings) (m : Moment State Label Effect) : Prop :=
  ∀ st' es, step s m.before m.label = some (st', es) →
    ∀ x, st'.streams.get? x = m.before.streams.get? x

/-- A call is answered when it looks for its stream. -/
def Refused (m : Moment State Label Effect) : Prop :=
  (∃ id, m.label = .lookup id) ∧ ∃ id reply, Effect.reply id reply ∈ m.effects

/-- What a call is told that is turned away. -/
inductive TurnedAway (s : Settings) (m : Moment State Label Effect) (r : Request) :
    DispatchReply → Prop
  | empty (none : r.events = []) : TurnedAway s m r emptyReply
  | sourceless (lacks : r.lacksSource = true) : TurnedAway s m r (refusal .emptySource)
  | full (refused : Refused m) (full : s.maxStreams ≤ m.before.streams.size)
      (new : m.before.streams.get? (r.source s) = none) :
      TurnedAway s m r (refusal (.sourceLimit (r.source s) s.maxStreams))

variable {s : Settings} {st st' : State} {l : Label} {left : Left} {es : List Effect}
variable {h : History}

/-! ## What a call has done before its turn -/

/-- A step of a call that is in progress is one more thing that it did. -/
theorem labelsOf_old (hs : step s st l = some (st', es)) {call : Call}
    (at_ : st.calls.get? l.id = some call) :
    Moment.labelsOf (h ++ [next s h st l es]) ((machine s).numberOf h l.id) =
      Moment.labelsOf h ((machine s).numberOf h l.id) ++ [l] := by
  have hn : (next s h st l es).call = (machine s).numberOf h l.id := callOf_old hs at_
  rw [Moment.labelsOf_concat, if_pos hn]
  rfl

theorem effectsOf_old (hs : step s st l = some (st', es)) {call : Call}
    (at_ : st.calls.get? l.id = some call) :
    Moment.effectsOf (h ++ [next s h st l es]) ((machine s).numberOf h l.id) =
      Moment.effectsOf h ((machine s).numberOf h l.id) ++ es := by
  have hn : (next s h st l es).call = (machine s).numberOf h l.id := callOf_old hs at_
  rw [Moment.effectsOf_concat, if_pos hn]
  rfl

theorem Waits.arrive (run : (machine s).Run h st) {id : CallId} {w : Walk} {r : Request} :
    Waits s (h ++ [next s h st (.arrive id r) (arrivalLines r)]) id ⟨w, .arrived⟩ r := by
  have hr : (machine s).request? (.arrive id r) = some r := rfl
  have number : (machine s).numberOf (h ++ [next s h st (.arrive id r) (arrivalLines r)]) id =
      ((machine s).arrivals h).length := Machine.numberOf_next_self hr
  have call : (next s h st (.arrive id r) (arrivalLines r)).call =
      ((machine s).arrivals h).length := Machine.callOf_some hr
  have fresh := Nat.le_refl ((machine s).arrivals h).length
  refine ⟨Machine.arrivals_next_self hr, ?_, ?_⟩
  · rw [number, Moment.labelsOf_concat, if_pos call, run.labelsOf_fresh fresh]
    rfl
  · rw [number, Moment.effectsOf_concat, if_pos call, run.effectsOf_fresh fresh]
    rfl

/-- A call that waits takes one more step on its way. -/
theorem Waits.step {call call' : Call} {r : Request} (w : Waits s h l.id call r)
    (hs : step s st l = some (st', [])) (at_ : st.calls.get? l.id = some call)
    (way : call'.phase.way l.id = call.phase.way l.id ++ [l]) :
    Waits s (h ++ [next s h st l []]) l.id call' r := by
  have number : (machine s).numberOf (h ++ [next s h st l []]) l.id =
      (machine s).numberOf h l.id := Machine.numberOf_next_name.trans (callOf_old hs at_)
  refine ⟨?_, ?_, ?_⟩
  · rw [number]
    exact Machine.arrivals_mono _ _ w.arrival
  · rw [number, labelsOf_old hs at_, w.labels, way, List.cons_append]
  · rw [number, effectsOf_old hs at_, w.effects, List.append_nil]

/-- Another call takes a step. -/
theorem Waits.next {id : CallId} {call : Call} {r : Request} (w : Waits s h id call r)
    (run : (machine s).Run h st) (hs : Dispatch.step s st l = some (st', es))
    (at_ : st.calls.get? id = some call) (hid : id ≠ l.id) :
    Waits s (h ++ [next s h st l es]) id call r := by
  have hn : (Dispatch.next s h st l es).call ≠ (machine s).numberOf h id :=
    run.callOf_ne hs (busy_of_get? s at_) hid
  refine ⟨?_, ?_, ?_⟩
  · rw [Machine.numberOf_next id (.inr hid)]
    exact Machine.arrivals_mono _ _ w.arrival
  · rw [Machine.numberOf_next id (.inr hid), Moment.labelsOf_concat, if_neg hn, List.append_nil,
      w.labels]
  · rw [Machine.numberOf_next id (.inr hid), Moment.effectsOf_concat, if_neg hn, List.append_nil,
      w.effects]

/-- **What a call has done before its turn**: it came in, and is on its way to the head of the
line. -/
theorem waits_of_run (run : (machine s).Run h st) {id : CallId} {call : Call}
    (at_ : st.calls.get? id = some call) (waits : ∀ event, call.phase ≠ .offering event) :
    ∃ r, Waits s h id call r := by
  induction run generalizing id call with
  | start => exact absurd at_ (by simp [machine, State.start])
  | @next h st st' l es run hs ih =>
    obtain ⟨left, m, after⟩ := step_move hs
    rw [after.calls] at at_
    by_cases hid : id = l.id
    · rw [if_pos hid] at at_
      subst hid
      cases m with
      | empty _ _ => exact absurd at_ (by simp)
      | sourceless _ _ _ => exact absurd at_ (by simp)
      | @arrive id r free some named =>
        obtain rfl := Option.some.inj at_
        exact ⟨r, .arrive run⟩
      | find old phase _ =>
        obtain rfl := Option.some.inj at_
        obtain ⟨r, w⟩ := ih old (by simp [phase])
        exact ⟨r, w.step hs old (by simp [phase, Phase.way, Label.id])⟩
      | refuse _ _ _ _ => exact absurd at_ (by simp)
      | join old phase =>
        obtain rfl := Option.some.inj at_
        obtain ⟨r, w⟩ := ih old (by simp [phase])
        exact ⟨r, w.step hs old (by simp [phase, Phase.way, Label.id])⟩
      | drop _ => exact absurd at_ (by simp)
      | work old works =>
        obtain ⟨event, he⟩ := Halted.call?_phase at_
        exact absurd he (waits event)
    · rw [if_neg hid] at at_
      obtain ⟨r, w⟩ := ih at_ waits
      exact ⟨r, w.next run hs at_ hid⟩

/-! ## Calls that are answered -/

theorem reply_not_mem_wakes (line : List CallId) (id id' : CallId) (reply : DispatchReply) :
    Effect.reply id' reply ∉ wakes line id := by
  unfold wakes
  split <;> simp

/-- A call is answered at its end, in a step of its own. -/
theorem Move.reply (m : Move s st l left es) {id : CallId} {reply : DispatchReply}
    (hr : .reply id reply ∈ es) : id = l.id ∧ left.call? = none := by
  have told : (id, reply) ∈ es.filterMap Effect.told? := List.mem_filterMap.mpr ⟨_, hr, rfl⟩
  obtain ⟨rfl, ended, -⟩ := m.ending.of_told told
  exact ⟨rfl, Option.not_isSome_iff_eq_none.mp (by simp [ended])⟩

/-- With its answer a call is over. -/
theorem last_reply : (machine s).Last fun _ es => ∃ id reply, Effect.reply id reply ∈ es := by
  intro st l st' es hs ⟨id, reply, hr⟩
  obtain ⟨left, move, after⟩ := step_move hs
  rw [machine_busy, machine_name, Table.contains, after.calls, if_pos rfl, (move.reply hr).2]
  rfl

/-- A call that is answered has had its turn, or is turned away. -/
theorem answered_next (run : (machine s).Run h st) (hs : step s st l = some (st', es))
    {id : CallId} {reply : DispatchReply} (hr : .reply id reply ∈ es) :
    ∃ r, ((machine s).arrivals (h ++ [next s h st l es]))[(machine s).callOf h l]? =
        some (id, r) ∧
      ((machine s).callOf h l ∈ turns (h ++ [next s h st l es]) (r.source s) ∨
        TurnedAway s (next s h st l es) r reply) := by
  obtain ⟨left, move, after⟩ := step_move hs
  obtain ⟨rfl, -⟩ := move.reply hr
  have old : ∀ {call}, st.calls.get? l.id = some call → ∃ r, Follows s h l.id call r ∧
      ((machine s).arrivals (h ++ [next s h st l es]))[(machine s).callOf h l]? =
        some (l.id, r) := by
    intro call at_
    obtain ⟨r, f⟩ := follows_of_run run at_
    rw [callOf_old hs at_]
    exact ⟨r, f, Machine.arrivals_mono _ _ f.arrival⟩
  cases move with
  | @empty id r free none =>
    refine ⟨r, Machine.arrivals_next rfl, .inr ?_⟩
    obtain rfl : reply = emptyReply := by
      cases r <;> simpa [emptyLines, Label.id] using hr
    exact .empty none
  | @sourceless id r free some lacks =>
    refine ⟨r, Machine.arrivals_next rfl, .inr ?_⟩
    obtain rfl : reply = refusal .emptySource := by simpa [Label.id] using hr
    exact .sourceless lacks
  | arrive _ _ _ => cases ‹Request› <;> simp [arrivalLines] at hr
  | find _ _ _ => exact absurd hr (by simp)
  | @refuse id call at_ phase new full =>
    obtain ⟨r, f, arrival⟩ := old at_
    refine ⟨r, arrival, .inr ?_⟩
    obtain rfl : reply = refusal (.sourceLimit call.walk.source s.maxStreams) := by
      simpa [Label.id] using hr
    have away : TurnedAway s (next s h st (.lookup id) _) r
        (refusal (.sourceLimit (r.source s) s.maxStreams)) :=
      .full ⟨⟨id, rfl⟩, id, _, hr⟩ full (f.source ▸ new)
    rwa [← f.source] at away
  | join _ _ => exact absurd hr (by simp)
  | drop _ => exact absurd hr (reply_not_mem_wakes _ _ _ _)
  | @work id call _ last? w at_ works =>
    obtain ⟨r, f, arrival⟩ := old (works.label_id.symm ▸ at_)
    refine ⟨r, arrival, .inl ?_⟩
    rw [turns_concat, List.mem_append]
    cases works with
    | proceed phase first =>
      right
      rw [turn?_proceed rfl at_ f.source]
      exact List.mem_singleton_self _
    | answer verdict phase =>
      left
      rw [callOf_old hs at_]
      exact ((turning_of_run run _).mem_iff at_).mpr ⟨f.source, _, phase⟩

/-- **A call that is answered** has had its turn, or is turned away. -/
theorem answered_of_run (run : (machine s).Run h st) {m : Moment State Label Effect} (hm : m ∈ h)
    {id : CallId} {reply : DispatchReply} (hr : .reply id reply ∈ m.effects) :
    ∃ r, ((machine s).arrivals h)[m.call]? = some (id, r) ∧
      (m.call ∈ turns h (r.source s) ∨ TurnedAway s m r reply) := by
  induction run with
  | start => exact absurd hm (by simp)
  | next run hs ih =>
    rcases List.mem_append.mp hm with hm | hm
    · obtain ⟨r, arrival, answered⟩ := ih hm
      refine ⟨r, Machine.arrivals_mono _ _ arrival, answered.imp_left fun ht => ?_⟩
      rw [turns_concat]
      exact List.mem_append_left _ ht
    · obtain rfl := List.mem_singleton.mp hm
      exact answered_next run hs hr

/-! ## Calls that find no room -/

/-- Coming in changes no stream. -/
theorem keeps_of_arrive {m : Moment State Label Effect} {id : CallId} {r : Request}
    (hl : m.label = .arrive id r) : Keeps s m := by
  intro st' es hs y
  rw [hl] at hs
  obtain ⟨left, move, after⟩ := step_move hs
  have kept : left.stream? = m.before.streams.get? left.source := by
    cases move with
    | empty _ _ => rfl
    | sourceless _ _ _ => rfl
    | arrive _ _ _ => rfl
    | work _ works => cases works
  rw [after.streams]
  by_cases hy : y = left.source
  · rw [if_pos hy, hy, kept]
  · rw [if_neg hy]

/-- A call that finds no room changes no stream when it looks for its own. -/
theorem keeps_of_refused {m : Moment State Label Effect}
    (hs : step s m.before m.label = some (st', m.effects)) (refused : Refused m) : Keeps s m := by
  obtain ⟨n, l, st, es⟩ := m
  obtain ⟨⟨id, rfl⟩, id', reply, hr⟩ := refused
  simp only at hs hr
  intro st'' es' hs' y
  obtain ⟨rfl, rfl⟩ := Prod.mk.inj (Option.some.inj (hs.symm.trans hs'))
  obtain ⟨left, move, after⟩ := step_move hs
  rw [after.streams]
  cases move with
  | find _ _ _ => exact absurd hr (by simp)
  | @refuse _ call _ _ new _ =>
    by_cases hy : y = call.walk.source
    · rw [if_pos hy, hy, new]
    · rw [if_neg hy]
  | work _ works => cases works

/-- A call that looks for its stream has only come in before. -/
theorem arrive_of_lookup (run : (machine s).Run h st) {id : CallId}
    (hs : step s st (.lookup id) = some (st', es)) {m : Moment State Label Effect} (hm : m ∈ h)
    (hn : m.call = (machine s).callOf h (.lookup id)) : ∃ id r, m.label = .arrive id r := by
  obtain ⟨left, move, -⟩ := step_move hs
  obtain ⟨call, at_, phase⟩ : ∃ call, st.calls.get? id = some call ∧ call.phase = .arrived := by
    cases move with
    | find at_ phase _ => exact ⟨_, at_, phase⟩
    | refuse at_ phase _ _ => exact ⟨_, at_, phase⟩
    | work _ works => cases works
  obtain ⟨r, w⟩ := waits_of_run run at_ (by simp [phase])
  have : m.label ∈ Moment.labelsOf h ((machine s).numberOf h id) :=
    Moment.mem_labelsOf.mpr ⟨m, hm, hn.trans (Machine.callOf_none rfl), rfl⟩
  rw [w.labels, phase] at this
  exact ⟨id, r, List.mem_singleton.mp this⟩

/-- **A call that finds no room changes no stream**, at any of its steps. -/
theorem keeps_of_run (run : (machine s).Run h st) {m m' : Moment State Label Effect}
    (hm : m ∈ h) (refused : Refused m) (hm' : m' ∈ h) (same : m'.call = m.call) : Keeps s m' := by
  induction run with
  | start => exact absurd hm (by simp)
  | @next h st st' l es run hs ih =>
    rw [List.mem_append, List.mem_singleton] at hm hm'
    rcases hm with hm | rfl
    · rcases hm' with hm' | rfl
      · exact ih hm hm'
      · -- The call has been answered, so it takes no further step.
        exact absurd same.symm (run.nothing_after last_reply hs hm refused.2)
    · rcases hm' with hm' | rfl
      · obtain ⟨⟨id, hl⟩, -⟩ := refused
        obtain rfl : l = .lookup id := hl
        obtain ⟨id, r, hl⟩ := arrive_of_lookup run hs hm' same
        exact keeps_of_arrive hl
      · exact keeps_of_refused hs refused

end ChangeRelay.Dispatch
