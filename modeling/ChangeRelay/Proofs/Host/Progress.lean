import ChangeRelay.Proofs.Dispatch.Progress
import ChangeRelay.Proofs.Host.Course

/-!
# Every request can come to its end

Nothing in a host keeps a request from its end but its caller and the pipeline. A request that waits
for a slot can be called or give up; one that is at work goes on with every verdict of the pipeline,
behind those that stand before it. All of these are steps that requests take by themselves: nobody
is dropped, nobody comes in, and the host is not shut down.

* `Reaches`: what such steps can lead to.
* **`ends_of_run`**: in every state of a run, every request can come to its end.
* **`Span.ends`**: so the time of a request can.
-/

namespace ChangeRelay

/-- A call is over with the steps that hold its reply. -/
theorem Dispatch.gone_of_goes {s : Settings} {st st' : State} {id c : CallId} {ls : List Label}
    {es : List Effect} {reply : DispatchReply} (g : (machine s).Goes id st ls es st')
    (hr : .reply c reply ∈ es) : st'.calls.contains id = false := by
  induction g with
  | stop => exact absurd hr List.not_mem_nil
  | @step st st' st'' l ls es es' h name _ rest ih =>
    rcases List.mem_append.mp hr with hr | hr
    · have gone : (machine s).busy st' id = false := name ▸ last_reply h ⟨_, _, hr⟩
      cases rest with
      | stop => exact gone
      | step h' name' old' _ =>
        have before := (machine s).busy_before h'
        rw [name', old', gone] at before
        exact absurd before (by simp)
    · exact ih hr

namespace Host

/-- A step that a request takes by itself. -/
def Label.isOwn : Label → Bool
  | .resume _ => true
  | .expire _ => true
  | .dispatch _ => true
  | .reaction _ => true
  | .giveBack _ => true
  | _ => false

/-- Steps that requests take by themselves can lead to a state that is so. -/
def Reaches (s : Settings) (st : State) (P : State → Prop) : Prop :=
  ∃ ms st', Steps s st ms st' ∧ (∀ m ∈ ms, m.label.isOwn = true) ∧ P st'

variable {s : Settings} {st st' st'' : State} {l : Label} {es : List Effect} {id : CallId}
variable {hist ms ms' : List Moment} {P Q : State → Prop}

namespace Reaches

theorem here (h : P st) : Reaches s st P := ⟨[], st, .stop, by simp, h⟩

theorem bind (run : Run s hist st) (reaches : Reaches s st P)
    (next : ∀ {hist st}, Run s hist st → P st → Reaches s st Q) : Reaches s st Q := by
  obtain ⟨ms, st', steps, own, h⟩ := reaches
  obtain ⟨ms', st'', steps', own', h'⟩ := next (Steps.append run steps) h
  exact ⟨ms ++ ms', st'', steps.append steps', List.forall_mem_append.mpr ⟨own, own'⟩, h'⟩

theorem of_step (h : step s st l = some (st', es)) (own : l.isOwn = true) (hp : P st') :
    Reaches s st P := by
  refine ⟨_, st', .next .stop h, ?_, hp⟩
  intro m hm
  rwa [List.mem_singleton.mp hm]

theorem mono (reaches : Reaches s st P) (weaker : ∀ st, P st → Q st) : Reaches s st Q := by
  obtain ⟨ms, st', steps, own, h⟩ := reaches
  exact ⟨ms, st', steps, own, weaker st' h⟩

end Reaches

/-! ## Calls of the dispatcher -/

/-- A call takes a step of its own. -/
theorem reaches_of_dispatch {l : Dispatch.Label} {d : Dispatch.State} {fx : List Dispatch.Effect}
    (own : isOwnStep l = true) (h : Dispatch.step s.dispatch st.dispatch l = some (d, fx)) :
    Reaches s st fun st' => st'.dispatch = d :=
  .of_step (step_dispatch own h) rfl (dispatched_spec fx _).1

/-- A call takes steps of its own in a row. -/
theorem reaches_of_goes (run : Run s hist st) {d : Dispatch.State} {ls : List Dispatch.Label}
    {fx : List Dispatch.Effect} (g : (Dispatch.machine s.dispatch).Goes id st.dispatch ls fx d)
    (own : ∀ l ∈ ls, isOwnStep l = true) : Reaches s st fun st' => st'.dispatch = d := by
  generalize hd : st.dispatch = d₀ at g
  induction g generalizing hist st with
  | stop => exact .here hd
  | step h _ _ _ ih =>
    subst hd
    have first := List.forall_mem_cons.mp own
    exact (reaches_of_dispatch first.1 h).bind run fun run' same => ih run' first.2 same

theorem own_of_works {l : Dispatch.Label}
    (works : l = .proceed id ∨ ∃ verdict, l = .answer id verdict) : isOwnStep l = true := by
  rcases works with rfl | ⟨_, rfl⟩ <;> rfl

theorem orderly_of_host (run : Run s hist st) : Dispatch.Orderly st.dispatch := by
  obtain ⟨h, run, -⟩ := dispatch_of_run run
  exact Dispatch.orderly_of_run run

/-- A call comes to its end in the dispatcher. -/
theorem reaches_of_finishes (run : Run s hist st) {x : String}
    {answers : Nat → Pipeline.Verdict} {d : Dispatch.State} {ls : List Dispatch.Label}
    {fx : List Dispatch.Effect}
    (f : Dispatch.Finishes s.dispatch id x answers st.dispatch ls fx d) :
    Reaches s st fun st' => st'.dispatch.calls.contains id = false := by
  obtain ⟨reply, hr⟩ := f.replies
  have own : ∀ l ∈ ls, isOwnStep l = true := fun l hl => own_of_works (f.works l hl)
  refine (reaches_of_goes run f.goes own).mono fun st' same => ?_
  rw [same]
  exact Dispatch.gone_of_goes f.goes hr

/-- **The calls before a call** come to their end, by induction on their number. -/
theorem reaches_head {call : Dispatch.Call} {behind : List CallId} (before : List CallId)
    (run : Run s hist st) (at_ : st.dispatch.calls.get? id = some call)
    (line : st.dispatch.line call.walk.source = before ++ id :: behind) :
    Reaches s st fun st' => st'.dispatch.calls.get? id = some call ∧
      (st'.dispatch.line call.walk.source).head? = some id := by
  induction before generalizing hist st with
  | nil => exact .here ⟨at_, by rw [line]; rfl⟩
  | cons a before ih =>
    have o := orderly_of_host run
    have nodup := o.nodup call.walk.source
    rw [line, List.cons_append, List.nodup_cons] at nodup
    have other : id ≠ a := by
      rintro rfl
      exact nodup.1 (by simp)
    have inLine : a ∈ st.dispatch.line call.walk.source := by
      rw [line]
      exact List.mem_cons_self
    obtain ⟨call', at', source, lined⟩ := o.mem_line.mp inLine
    have first : (st.dispatch.line call'.walk.source).head? = some a := by
      rw [source, line]
      rfl
    obtain ⟨ls, fx, d, f⟩ := Dispatch.finishes (s := s.dispatch) o at' first lined fun _ => .taken
    have own : ∀ l ∈ ls, isOwnStep l = true := fun l hl => own_of_works (f.works l hl)
    refine (reaches_of_goes run f.goes own).bind run ?_
    rintro hist' st' run' rfl
    refine ih run' ((f.others id other).trans at_) ?_
    have moved := f.line
    rwa [source, line, List.cons_append, List.erase_cons_head] at moved

theorem leaves_of_inLine (run : Run s hist st) {w : Dispatch.Walk}
    (at_ : st.dispatch.calls.get? id = some ⟨w, .inLine⟩) :
    Reaches s st fun st' => st'.dispatch.calls.contains id = false := by
  have inLine : id ∈ st.dispatch.line w.source :=
    (orderly_of_host run).mem_line.mpr ⟨_, at_, rfl, rfl⟩
  obtain ⟨before, behind, line⟩ := List.append_of_mem inLine
  refine (reaches_head before run at_ line).bind run ?_
  rintro hist' st' run' ⟨at', first⟩
  obtain ⟨ls, fx, d, f⟩ :=
    Dispatch.finishes (s := s.dispatch) (orderly_of_host run') at' first rfl fun _ => .taken
  exact reaches_of_finishes run' f

theorem leaves_of_found (run : Run s hist st) {w : Dispatch.Walk}
    (at_ : st.dispatch.calls.get? id = some ⟨w, .found⟩) :
    Reaches s st fun st' => st'.dispatch.calls.contains id = false := by
  obtain ⟨d, h, after⟩ := (Dispatch.Move.join (s := s.dispatch) at_ rfl).step
  refine (reaches_of_dispatch rfl h).bind run ?_
  rintro hist' st' run' rfl
  refine leaves_of_inLine (w := w) run' ?_
  rw [after.calls]
  exact if_pos rfl

theorem leaves_of_arrived (run : Run s hist st) {walk : Dispatch.Walk}
    (at_ : st.dispatch.calls.get? id = some ⟨walk, .arrived⟩) :
    Reaches s st fun st' => st'.dispatch.calls.contains id = false := by
  by_cases room : walk.source ∉ st.dispatch.streams.keys →
      st.dispatch.streams.size < s.dispatch.maxStreams
  · obtain ⟨d, h, after⟩ := (Dispatch.Move.find (s := s.dispatch) at_ rfl room).step
    refine (reaches_of_dispatch rfl h).bind run ?_
    rintro hist' st' run' rfl
    refine leaves_of_found (w := walk) run' ?_
    rw [after.calls]
    exact if_pos rfl
  · obtain ⟨new, full⟩ := Classical.not_imp.mp room
    rw [Table.mem_keys_iff, Option.not_isSome_iff_eq_none] at new
    obtain ⟨d, h, after⟩ :=
      (Dispatch.Move.refuse (s := s.dispatch) at_ rfl new (Nat.le_of_not_lt full)).step
    refine (reaches_of_dispatch rfl h).mono ?_
    rintro st' rfl
    rw [Table.contains, after.calls]
    exact congrArg Option.isSome (if_pos rfl)

/-- **A call of the dispatcher** comes to its end there. -/
theorem leaves_of_call (run : Run s hist st)
    (busy : st.dispatch.calls.contains id = true) :
    Reaches s st fun st' => st'.dispatch.calls.contains id = false := by
  obtain ⟨⟨walk, phase⟩, at_⟩ := Option.isSome_iff_exists.mp busy
  cases phase with
  | arrived => exact leaves_of_arrived run at_
  | found => exact leaves_of_found run at_
  | inLine => exact leaves_of_inLine run at_
  | offering event =>
    obtain ⟨ls, fx, d, f⟩ :=
      Dispatch.finishes_offering (s := s.dispatch) (orderly_of_host run) at_ fun _ => .taken
    exact reaches_of_finishes run f

/-! ## Deliveries -/

theorem reacted_reaction (fx : List Reaction.Effect) (st : State) :
    (st.reacted fx).1.reaction = st.reaction := by
  rw [reacted_eq, settle_state]

/-- A delivery that takes its last step. -/
theorem leaves_of_last {l : Reaction.Label} {left : Reaction.Left} {fx : List Reaction.Effect}
    (own : isOwnDelivery l = true) (m : Reaction.Move s.reaction st.reaction l left fx)
    (ended : left.delivery? = none) :
    Reaches s st fun st' => st'.reaction.deliveries.contains l.id = false := by
  obtain ⟨r, h, after⟩ := m.step
  refine .of_step (step_reaction own h) rfl ?_
  rw [reacted_reaction, Table.contains, after.deliveries, if_pos rfl, ended]
  rfl

/-- **A delivery** comes to its end in the reaction handler. -/
theorem leaves_of_delivery (busy : st.reaction.deliveries.contains id = true) :
    Reaches s st fun st' => st'.reaction.deliveries.contains id = false := by
  obtain ⟨⟨x, phase⟩, at_⟩ := Option.isSome_iff_exists.mp busy
  cases phase with
  | applying a => exact leaves_of_last rfl (.complete at_) rfl
  | awaiting owner => exact leaves_of_last rfl (.expire at_) rfl
  | released reply? => exact leaves_of_last rfl (.resume at_) rfl

/-! ## Requests -/

/-- When a request is no more at work in a part, it is no more in progress, or was not before. -/
theorem Part.gone_of_left (p : Part s) (steps : Steps s st ms st') (sound : st.Sound)
    (busy : p.machine.busy (p.state st) id = true)
    (left : p.machine.busy (p.state st') id = false) :
    ∃ ms₁ st₁, ms₁ <+: ms ∧ Steps s st ms₁ st₁ ∧ st₁.contains id = false := by
  induction steps with
  | stop => exact absurd (busy.symm.trans left) (by simp)
  | @next st' st'' ms l es steps h ih =>
    cases still : p.machine.busy (p.state st') id with
    | false =>
      obtain ⟨ms₁, st₁, prefixed, steps₁, gone⟩ := ih still
      exact ⟨ms₁, st₁, prefixed.trans (List.prefix_append _ _), steps₁, gone⟩
    | true =>
      rcases p.takes (steps.sound sound).1 h with ⟨-, same⟩ | ⟨a, fx, takes⟩
      · rw [same] at left
        exact absurd (still.symm.trans left) (by simp)
      · have own : id = p.machine.name a := by
          by_contra other
          rw [p.machine.busy_other takes.step other] at left
          exact absurd (still.symm.trans left) (by simp)
        subst own
        have place := takes.place
        rw [left] at place
        exact ⟨_, st'', List.prefix_refl _, steps.next h, gone_iff.mpr place⟩

theorem Part.ends_of_left (p : Part s) (sound : st.Sound)
    (busy : p.machine.busy (p.state st) id = true)
    (left : Reaches s st fun st' => p.machine.busy (p.state st') id = false) :
    Reaches s st fun st' => st'.contains id = false := by
  obtain ⟨ms, st', steps, own, left⟩ := left
  obtain ⟨ms₁, st₁, prefixed, steps₁, gone⟩ := p.gone_of_left steps sound busy left
  exact ⟨ms₁, st₁, steps₁, fun m hm => own m (prefixed.subset hm), gone⟩

theorem ends_of_holding (run : Run s hist st) (holds : st.pool.standing id = .holding) :
    Reaches s st fun st' => st'.contains id = false := by
  have sound := sound_of_run run
  cases calls : st.dispatch.calls.contains id with
  | true => exact (dispatcher s).ends_of_left sound calls (leaves_of_call run calls)
  | false =>
    cases deliveries : st.reaction.deliveries.contains id with
    | true => exact (handler s).ends_of_left sound deliveries (leaves_of_delivery deliveries)
    | false =>
      have holder := (Pool.standing_eq_holding_iff sound.pool).mp holds
      have keeps : st.keeps id = true := by simp [State.keeps, holder, calls, deliveries]
      have h : step s st (.giveBack id) = some (st.withPool (st.pool.release id)) := if_pos keeps
      exact .of_step h rfl (gone_iff.mpr (Pool.release_moves sound.pool holds).2)

/-- A request that goes on after its wait does not wait again. -/
theorem resumed_place {left : Left} (m : Move s st (.resume id) id left es) :
    left.place ≠ .waiting := by
  generalize hl : Label.resume id = l at m
  cases m with
  | queue _ _ _ => exact absurd hl (by simp)
  | keep _ => simp [State.left]
  | dispatch _ _ => exact ofBusy_ne_waiting _
  | reaction _ _ => exact ofBusy_ne_waiting _
  | _ => simp [State.left]

theorem ends_of_waiting (run : Run s hist st) (waits : st.pool.standing id = .waiting) :
    Reaches s st fun st' => st'.contains id = false := by
  have sound := sound_of_run run
  obtain ⟨work, wants⟩ := Option.isSome_iff_exists.mp ((sound.waits id).mpr waits)
  rcases Pool.goes_on waits with called | ended
  · obtain ⟨⟨p, outcome⟩, resumes⟩ := Option.isSome_iff_exists.mp called
    have h : (step s st (.resume id)).isSome = true := by
      simp only [step, resumes, wants]
      cases outcome <;> rfl
    obtain ⟨⟨st', es⟩, h⟩ := Option.isSome_iff_exists.mp h
    obtain ⟨left, m, after⟩ := resume_move sound h
    have first : Reaches s st fun st₁ => st₁ = st' := .of_step h rfl rfl
    refine first.bind run ?_
    rintro hist' st' run' rfl
    cases place : left.place with
    | away => exact .here (gone_iff.mpr (after.pool.2.trans place))
    | waiting => exact absurd place (resumed_place m)
    | holding => exact ends_of_holding run' (after.pool.2.trans place)
  · obtain ⟨⟨p, refusal⟩, expires⟩ := Option.isSome_iff_exists.mp ended
    obtain ⟨-, -, p', same, -, away⟩ := Pool.expire_moves sound.pool expires
    obtain rfl := (Prod.mk.inj same).1
    have h : step s st (.expire id) =
        some ({ st with pool := p, waiting := st.waiting.erase id }, [.refuse id refusal]) := by
      simp only [step, expires]
    exact .of_step h rfl (gone_iff.mpr away)

/-- **Every request can come to its end**, by steps that requests take by themselves. -/
theorem ends_of_run (run : Run s hist st) (id : CallId) :
    Reaches s st fun st' => st'.contains id = false := by
  cases stands : st.pool.standing id with
  | away => exact .here (gone_iff.mpr stands)
  | waiting => exact ends_of_waiting run stands
  | holding => exact ends_of_holding run stands

/-- The time of a request goes on until it is over. -/
theorem Span.append {work : Work} (span : Span s st id work ms st')
    (steps : Steps s st' ms' st'') :
    (∃ ms₁ st₁, ms₁ <+: ms' ∧ Span s st id work (ms ++ ms₁) st₁ ∧ st₁.contains id = false) ∨
      Span s st id work (ms ++ ms') st'' := by
  induction steps with
  | stop =>
    right
    rwa [List.append_nil]
  | @next st₁ st₂ ms₁ l es steps h ih =>
    rcases ih with ⟨ms₂, st₂, prefixed, ended⟩ | span'
    · exact .inl ⟨ms₂, st₂, prefixed.trans (List.prefix_append _ _), ended⟩
    · cases busy : st₁.contains id with
      | false => exact .inl ⟨ms₁, st₁, List.prefix_append _ _, span', busy⟩
      | true =>
        right
        rw [← List.append_assoc]
        exact span'.goesOn busy h

/-- **The time of a request can come to its end**, by steps that requests take by themselves. -/
theorem Span.ends {work : Work} (run : Run s hist st) (span : Span s st id work ms st') :
    ∃ ms' st'', Span s st id work (ms ++ ms') st'' ∧ (∀ m ∈ ms', m.label.isOwn = true) ∧
      st''.contains id = false := by
  obtain ⟨ms', st'', steps, own, gone⟩ := ends_of_run (Steps.append run span.steps) id
  rcases span.append steps with ⟨ms₁, st₁, prefixed, span', gone'⟩ | span'
  · exact ⟨ms₁, st₁, span', fun m hm => own m (prefixed.subset hm), gone'⟩
  · exact ⟨ms', st'', span', own, gone⟩

end Host

end ChangeRelay
