import ChangeRelay.Proofs.Dispatch.Ending
import ChangeRelay.Proofs.Host.Session
import ChangeRelay.Proofs.Host.Slots
import ChangeRelay.Proofs.Reaction.Ending

/-!
# What a step of a host changes

A step is taken by one request. All it changes is where the request stands with the pool, what it
waits to do, and either the dispatcher or the reaction handler, which takes one step of its own or
none. `Move` lists the steps with what each of them leaves (`Left`), and `After` says that everything
else is as before.

* `State.Sound`: whoever works in either of them holds a slot.
* **`step_move`**: every step is a move, and leaves what its move says.
* **`Sound.step`**: a step keeps the state sound.

Nothing behind this module opens the definition of `step`.
-/

namespace ChangeRelay

namespace Host

/-! ## Effects -/

/-- Who is told something, and what. -/
def Effect.told? : Effect → Option (CallId × Reply)
  | .reply id r => some (id, r)
  | _ => none

/-- Whether somebody is only woken. -/
def Effect.isWake : Effect → Bool
  | .wake _ => true
  | _ => false

def Effect.ofDispatch : Dispatch.Effect → Effect
  | .log line => .log line
  | .offer id source event => .offer id source event
  | .wake id => .wake id
  | .reply id r => .reply id (.dispatch r)

def Effect.ofReaction : Reaction.Effect → Effect
  | .log line => .log line
  | .apply id invocation => .apply id invocation
  | .wake id => .wake id
  | .stop => .stop
  | .reply id r => .reply id (.invocation r)

/-- What a step does but for waking others. -/
def loud (es : List Effect) : List Effect := es.filter fun e => !e.isWake

theorem loud_append (es es' : List Effect) : loud (es ++ es') = loud es ++ loud es' :=
  List.filter_append _ _

theorem loud_wakes (ids : List CallId) : loud (ids.map .wake) = [] :=
  List.filter_eq_nil_iff.mpr fun e he => by
    obtain ⟨id, -, rfl⟩ := List.mem_map.mp he
    exact Bool.false_ne_true

theorem told_loud (es : List Effect) :
    (loud es).filterMap Effect.told? = es.filterMap Effect.told? := by
  unfold loud
  rw [List.filterMap_filter]
  congr 1
  funext e
  cases e <;> rfl

theorem told_ofDispatch (es : List Dispatch.Effect) :
    (es.map Effect.ofDispatch).filterMap Effect.told? =
      (es.filterMap Dispatch.Effect.told?).map fun t => (t.1, .dispatch t.2) := by
  rw [List.filterMap_map, List.map_filterMap]
  congr 1
  funext e
  cases e <;> rfl

theorem told_ofReaction (es : List Reaction.Effect) :
    (es.map Effect.ofReaction).filterMap Effect.told? =
      (es.filterMap Reaction.Effect.told?).map fun t => (t.1, .invocation t.2) := by
  rw [List.filterMap_map, List.map_filterMap]
  congr 1
  funext e
  cases e <;> rfl

end Host

/-- The pool once the calls `ids` have given back their slots. -/
def Pool.releaseAll (p : Pool) (ids : List CallId) : Pool :=
  ids.foldl (fun p id => (p.release id).1) p

namespace Host

/-- Takes over effects; a reply gives the slot back. -/
def State.settle (st : State) : List Effect → State × List Effect
  | [] => (st, [])
  | e :: es =>
    let (st, wakes) := match e.told? with
      | some (id, _) => st.withPool (st.pool.release id)
      | none => (st, [])
    let (st, rest) := st.settle es
    (st, wakes ++ e :: rest)

theorem dispatched_eq (es : List Dispatch.Effect) (st : State) :
    st.dispatched es = st.settle (es.map .ofDispatch) := by
  induction es generalizing st with
  | nil => rfl
  | cons e es ih =>
    cases e <;> simp only [State.dispatched, List.map_cons, State.settle, ih] <;> rfl

theorem reacted_eq (es : List Reaction.Effect) (st : State) :
    st.reacted es = st.settle (es.map .ofReaction) := by
  induction es generalizing st with
  | nil => rfl
  | cons e es ih =>
    cases e <;> simp only [State.reacted, List.map_cons, State.settle, ih] <;> rfl

theorem settle_state (es : List Effect) (st : State) : (st.settle es).1 =
    { st with pool := st.pool.releaseAll ((es.filterMap Effect.told?).map Prod.fst) } := by
  induction es generalizing st with
  | nil => rfl
  | cons e es ih =>
    unfold State.settle
    rw [List.filterMap_cons]
    cases e.told? with
    | none => exact ih st
    | some t => exact ih _

theorem loud_settle (es : List Effect) (st : State) : loud (st.settle es).2 = loud es := by
  induction es generalizing st with
  | nil => rfl
  | cons e es ih =>
    have split : ∀ (woken : List CallId) (rest : List Effect),
        loud (woken.map .wake ++ e :: rest) = loud [e] ++ loud rest := fun woken rest => by
      rw [loud_append, loud_wakes, ← loud_append]
      rfl
    have cons : loud (e :: es) = loud [e] ++ loud es := loud_append [e] es
    unfold State.settle
    cases e.told? with
    | none => exact (split [] _).trans (by rw [ih, cons])
    | some t => exact (split (st.pool.release t.1).2.toList _).trans (by rw [ih, cons])

/-! ## Moves -/

/-- The request that takes a step; nobody takes the step that shuts a host down. -/
def Label.id? : Label → Option CallId
  | .request id _ => some id
  | .resume id => some id
  | .expire id => some id
  | .dispatch label => some label.id
  | .reaction label => some label.id
  | .giveBack id => some id
  | .drop id => some id
  | .shutdown => none

/-- A request gets its slot: at once, or when it is called. -/
inductive Gets (st : State) : Label → CallId → Work → Prop
  | atOnce {id : CallId} {work : Work} (new : st.pool.standing id = .away)
      (slot : st.pool.HasSlot) : Gets st (.request id work) id work
  | called {id : CallId} {work : Work} (handed : id ∈ st.pool.handed)
      (opened : st.pool.closed = false) (waits : st.waiting.get? id = some work) :
      Gets st (.resume id) id work

/-- The step of the dispatcher that a step of the host contains. -/
inductive InDispatch (st : State) : Label → Dispatch.Label → Prop
  | arrive {l : Label} {id : CallId} {r : Dispatch.Request} (gets : Gets st l id (.dispatch r)) :
      InDispatch st l (.arrive id r)
  | own {l : Dispatch.Label} (own : isOwnStep l = true) : InDispatch st (.dispatch l) l
  | drop (id : CallId) : InDispatch st (.drop id) (.drop id)

/-- The step of the reaction handler that a step of the host contains. -/
inductive InReaction (st : State) : Label → Reaction.Label → Prop
  | arrive {l : Label} {id : CallId} {i : Wire.Invocation} (gets : Gets st l id (.handle i)) :
      InReaction st l (.arrive id i)
  | own {l : Reaction.Label} (own : isOwnDelivery l = true) : InReaction st (.reaction l) l
  | drop (id : CallId) : InReaction st (.drop id) (.drop id)

/-- What a step leaves: where its request stands then, what it waits to do, the dispatcher and the
reaction handler. -/
structure Left where
  place : Standing
  work? : Option Work
  dispatch : Dispatch.State
  reaction : Reaction.State

/-- A request that the dispatcher and the reaction handler do not see. -/
def State.left (st : State) (place : Standing) (work? : Option Work) : Left :=
  ⟨place, work?, st.dispatch, st.reaction⟩

/-- The steps, with what each leaves and does to the world around but for waking others. -/
inductive Move (s : Settings) (st : State) : Label → CallId → Left → List Effect → Prop
  | turnAway {id : CallId} {work : Work} (new : st.pool.standing id = .away)
      (closed : st.pool.closed = true) :
      Move s st (.request id work) id (st.left .away none) [.refuse id .closed]
  | queue {id : CallId} {work : Work} (new : st.pool.standing id = .away)
      (opened : st.pool.closed = false) (full : st.pool.available = 0) :
      Move s st (.request id work) id (st.left .waiting (some work)) []
  | keep {l : Label} {id : CallId} (gets : Gets st l id .keep) :
      Move s st l id (st.left .holding none) [.kept id]
  | dispatch {l : Label} {l' : Dispatch.Label} {d : Dispatch.State} {es : List Dispatch.Effect}
      (is : InDispatch st l l') (steps : Dispatch.step s.dispatch st.dispatch l' = some (d, es)) :
      Move s st l l'.id ⟨.ofBusy (d.calls.contains l'.id), none, d, st.reaction⟩
        (loud (es.map .ofDispatch))
  | reaction {l : Label} {l' : Reaction.Label} {r : Reaction.State} {es : List Reaction.Effect}
      (is : InReaction st l l') (steps : Reaction.step s.reaction st.reaction l' = some (r, es)) :
      Move s st l l'.id ⟨.ofBusy (r.deliveries.contains l'.id), none, st.dispatch, r⟩
        (loud (es.map .ofReaction))
  | tooLong {id : CallId} (inLine : id ∈ st.pool.line) (opened : st.pool.closed = false) :
      Move s st (.expire id) id (st.left .away none)
        [.refuse id (.busy st.pool.workers st.pool.wait)]
  | tooLate {id : CallId} (waits : st.pool.standing id = .waiting)
      (closed : st.pool.closed = true) :
      Move s st (.resume id) id (st.left .away none) [.refuse id .closed]
  | giveBack {id : CallId} (keeps : st.keeps id = true) :
      Move s st (.giveBack id) id (st.left .away none) []
  | leave {id : CallId} (there : st.pool.standing id ≠ .away)
      (idle : st.dispatch.calls.contains id = false)
      (aside : st.reaction.deliveries.contains id = false) :
      Move s st (.drop id) id (st.left .away none) []

/-- `st'` is `st` but for the request `id` and what it has reached. -/
structure After (st : State) (id : CallId) (left : Left) (st' : State) : Prop where
  pool : st.pool.Puts id left.place st'.pool
  waiting : ∀ id', st'.waiting.get? id' = if id' = id then left.work? else st.waiting.get? id'
  dispatch : st'.dispatch = left.dispatch
  reaction : st'.reaction = left.reaction
  shutdown : st'.shutdown = st.shutdown

/-- Whoever waits for a slot waits to do something, and whoever works in the dispatcher or in the
reaction handler holds a slot. -/
structure State.Sound (st : State) : Prop where
  pool : st.pool.Sound
  waits : ∀ id, (st.waiting.get? id).isSome = true ↔ st.pool.standing id = .waiting
  calls : ∀ id, st.dispatch.calls.contains id = true → st.pool.standing id = .holding
  deliveries : ∀ id, st.reaction.deliveries.contains id = true → st.pool.standing id = .holding
  apart : ∀ id, st.dispatch.calls.contains id = true →
    st.reaction.deliveries.contains id = false

variable {s : Settings} {st st₁ st' : State} {l : Label} {id : CallId} {es : List Effect}

/-- A step that a call takes by itself is neither its first nor a drop. -/
theorem own_spec {l : Dispatch.Label} (own : isOwnStep l = true) :
    l.request?.isNone = true ∧ l.isDrop = false := by
  cases l <;> first | exact ⟨rfl, rfl⟩ | exact absurd own Bool.false_ne_true

theorem ownDelivery_spec {l : Reaction.Label} (own : isOwnDelivery l = true) :
    l.request?.isNone = true ∧ l.isDrop = false := by
  cases l <;> first | exact ⟨rfl, rfl⟩ | exact absurd own Bool.false_ne_true

theorem sound_start (s : Settings) : (State.start s).Sound where
  pool := Pool.sound_ofWorkers _ _
  waits := fun id => by
    change (Option.isSome none = true ↔ (Pool.ofWorkers _ _).standing id = .waiting)
    rw [Pool.standing_ofWorkers]
    simp
  calls := fun _ h => absurd h Bool.false_ne_true
  deliveries := fun _ h => absurd h Bool.false_ne_true
  apart := fun _ _ => rfl

namespace State.Sound

variable (sound : st.Sound)
include sound

theorem idle (h : st.pool.standing id ≠ .holding) : st.dispatch.calls.contains id = false :=
  Bool.eq_false_iff.mpr (mt (sound.calls id) h)

theorem aside (h : st.pool.standing id ≠ .holding) : st.reaction.deliveries.contains id = false :=
  Bool.eq_false_iff.mpr (mt (sound.deliveries id) h)

theorem no_work (h : st.pool.standing id ≠ .waiting) : st.waiting.get? id = none :=
  Option.not_isSome_iff_eq_none.mp (mt (sound.waits id).mp h)

end State.Sound

/-- A step of the dispatcher that a call takes by itself is a step of the host. -/
theorem step_dispatch {l : Dispatch.Label} {d : Dispatch.State} {fx : List Dispatch.Effect}
    (own : isOwnStep l = true) (h : Dispatch.step s.dispatch st.dispatch l = some (d, fx)) :
    step s st (.dispatch l) = some ({ st with dispatch := d }.dispatched fx) :=
  (if_pos own).trans (congrArg (Option.map fun r => { st with dispatch := r.1 }.dispatched r.2) h)

/-- A step that a delivery takes by itself is a step of the host. -/
theorem step_reaction {l : Reaction.Label} {r : Reaction.State} {fx : List Reaction.Effect}
    (own : isOwnDelivery l = true) (h : Reaction.step s.reaction st.reaction l = some (r, fx)) :
    step s st (.reaction l) = some ({ st with reaction := r }.reacted fx) :=
  (if_pos own).trans (congrArg (Option.map fun r => { st with reaction := r.1 }.reacted r.2) h)

/-- A request is in progress if it stands somewhere. -/
theorem contains_iff : st.contains id = true ↔ st.pool.standing id ≠ .away := by
  rw [ne_eq, Pool.standing_eq_away_iff, State.contains, Pool.everybody]
  simp only [List.mem_append, decide_eq_true_eq, not_not, or_assoc]

/-- A request that stands nowhere is gone. -/
theorem gone_iff : st.contains id = false ↔ st.pool.standing id = .away := by
  rw [← Bool.not_eq_true, contains_iff, ne_eq, not_not]

/-! ## Slots that are given back -/

/-- A call that has its slot gives it back when it is told something, at its end. -/
theorem puts_releaseAll {p p₁ : Pool} (puts : p.Puts id .holding p₁) {busy dropped : Bool}
    {told : List (CallId × Reply)} (e : Ending id busy dropped told) (stays : dropped = false) :
    p.Puts id (.ofBusy busy) (p₁.releaseAll (told.map Prod.fst)) := by
  obtain ⟨moves, holds⟩ := puts
  cases e with
  | goesOn => exact ⟨moves, holds⟩
  | dropped => exact absurd stays (by simp)
  | told reply =>
    obtain ⟨moves', away⟩ := Pool.release_moves moves.sound holds
    exact ⟨moves.trans moves', away⟩

/-! ## Steps are moves -/

/-- Whoever gets a slot has none, and holds it then. -/
theorem Gets.not_holding {work : Work} (gets : Gets st l id work) :
    st.pool.standing id ≠ .holding := by
  cases gets with
  | atOnce new _ =>
    rw [new]
    simp
  | called handed _ _ =>
    rw [Pool.standing_eq_waiting_iff.mpr (.inr handed)]
    simp

/-- A table from which what a request waits to do is gone. -/
theorem get?_erase_waiting (st : State) (id id' : CallId) :
    (st.waiting.erase id).get? id' = if id' = id then none else st.waiting.get? id' :=
  Table.get?_erase _ _ _

/-- Who waits to do nothing is in no table. -/
theorem get?_waiting (h : st.waiting.get? id = none) (id' : CallId) :
    st.waiting.get? id' = if id' = id then none else st.waiting.get? id' := by
  by_cases same : id' = id
  · rw [if_pos same, same, h]
  · rw [if_neg same]

/-- **A request that has got its slot** reaches what it is for. -/
theorem enter_move (sound : st.Sound) {work : Work} (gets : Gets st l id work) {pool : Pool}
    (puts : st.pool.Puts id .holding pool) (waiting : Table CallId Work)
    (rest : ∀ id', waiting.get? id' = if id' = id then none else st.waiting.get? id') :
    ∃ left, Move s st l id left (loud ({ st with pool, waiting }.enter s id work).2) ∧
      After st id left ({ st with pool, waiting }.enter s id work).1 := by
  have out := gets.not_holding
  cases work with
  | keep => exact ⟨_, .keep gets, puts, rest, rfl, rfl, rfl⟩
  | dispatch r =>
    have steps : Dispatch.step s.dispatch st.dispatch (.arrive id r) =
        some (st.dispatch.arrive s.dispatch id r) := if_neg (by simp [sound.idle out])
    have ending := Dispatch.step_ending steps
    have gives := puts_releaseAll puts (ending.map Reply.dispatch) rfl
    simp only [State.enter, dispatched_eq, loud_settle, settle_state, told_ofDispatch]
    exact ⟨_, .dispatch (.arrive gets) steps, gives, rest, rfl, rfl, rfl⟩
  | handle i =>
    have steps : Reaction.step s.reaction st.reaction (.arrive id i) =
        some (st.reaction.arrive s.reaction id i) := if_neg (by simp [sound.aside out])
    have ending := Reaction.step_ending steps
    have gives := puts_releaseAll puts (ending.map Reply.invocation) rfl
    simp only [State.enter, reacted_eq, loud_settle, settle_state, told_ofReaction]
    exact ⟨_, .reaction (.arrive gets) steps, gives, rest, rfl, rfl, rfl⟩

theorem request_move (sound : st.Sound) {w : Work} (new : st.contains id = false) :
    ∃ left, Move s st (.request id w) id left (loud (st.request s id w).2) ∧
      After st id left (st.request s id w).1 := by
  have new := gone_iff.mp new
  have idle := get?_waiting (sound.no_work (show st.pool.standing id ≠ .waiting by simp [new]))
  unfold State.request
  rcases Pool.acquire_moves sound.pool new with
    ⟨closed, acquires⟩ | ⟨opened, room, p, acquires, puts⟩ | ⟨opened, full, p, acquires, puts⟩
  · rw [acquires]
    exact ⟨_, .turnAway new closed, new ▸ Pool.puts_refl sound.pool id, idle, rfl, rfl, rfl⟩
  · rw [acquires]
    exact enter_move sound (.atOnce new ⟨opened, room⟩) puts st.waiting idle
  · rw [acquires]
    exact ⟨_, .queue new opened full, puts, fun id' => Table.get?_set _ _ _ _, rfl, rfl, rfl⟩

theorem resume_move (sound : st.Sound) (h : step s st (.resume id) = some (st', es)) :
    ∃ left, Move s st (.resume id) id left (loud es) ∧ After st id left st' := by
  unfold step at h
  cases resumed : st.pool.resume id with
  | none => simp [resumed] at h
  | some r =>
    cases waits : st.waiting.get? id with
    | none => simp [resumed, waits] at h
    | some work =>
      rcases Pool.resume_moves sound.pool resumed with
        ⟨closed, stands, rfl⟩ | ⟨opened, handed, p, rfl, puts⟩
      · simp only [resumed, waits, State.withPool, Option.some.injEq, Prod.mk.injEq] at h
        obtain ⟨rfl, rfl⟩ := h
        rw [loud_append, loud_wakes]
        have there : st.pool.standing id ≠ .away := by simp [stands]
        have away := Pool.leave_moves sound.pool there
        exact ⟨_, .tooLate stands closed, away, get?_erase_waiting st id, rfl, rfl, rfl⟩
      · simp only [resumed, waits, State.withPool, Option.some.injEq] at h
        obtain ⟨rfl, rfl⟩ := Prod.mk.inj h
        exact enter_move sound (.called handed opened waits) puts (st.waiting.erase id)
          (get?_erase_waiting st id)

theorem expire_move (sound : st.Sound) (h : step s st (.expire id) = some (st', es)) :
    ∃ left, Move s st (.expire id) id left (loud es) ∧ After st id left st' := by
  unfold step at h
  cases expired : st.pool.expire id with
  | none => simp [expired] at h
  | some r =>
    obtain ⟨opened, inLine, p, rfl, puts⟩ := Pool.expire_moves sound.pool expired
    simp only [expired, Option.some.injEq, Prod.mk.injEq] at h
    obtain ⟨rfl, rfl⟩ := h
    exact ⟨_, .tooLong inLine opened, puts, get?_erase_waiting st id, rfl, rfl, rfl⟩

/-- Who works in the dispatcher or in the reaction handler waits to do nothing. -/
theorem holds_alone (sound : st.Sound) (holds : st.pool.standing id = .holding) :
    st.pool.Puts id .holding st.pool ∧
      ∀ id', st.waiting.get? id' = if id' = id then none else st.waiting.get? id' := by
  refine ⟨holds ▸ Pool.puts_refl sound.pool id, get?_waiting (sound.no_work ?_)⟩
  rw [holds]
  simp

theorem dispatch_move (sound : st.Sound) {l : Dispatch.Label}
    (h : step s st (.dispatch l) = some (st', es)) :
    ∃ left, Move s st (.dispatch l) l.id left (loud es) ∧ After st l.id left st' := by
  obtain ⟨own, h⟩ := Option.ite_none_right_eq_some.mp h
  obtain ⟨⟨d, des⟩, steps, h⟩ := Option.map_eq_some_iff.mp h
  obtain ⟨old, stays⟩ := own_spec own
  have busy := (Dispatch.contains_before steps).trans old
  obtain ⟨puts, rest⟩ := holds_alone sound (sound.calls l.id busy)
  have gives := puts_releaseAll puts ((Dispatch.step_ending steps).map Reply.dispatch) stays
  rw [dispatched_eq] at h
  obtain ⟨rfl, rfl⟩ := Prod.mk.inj h
  simp only [loud_settle, settle_state, told_ofDispatch]
  exact ⟨_, .dispatch (.own own) steps, gives, rest, rfl, rfl, rfl⟩

theorem reaction_move (sound : st.Sound) {l : Reaction.Label}
    (h : step s st (.reaction l) = some (st', es)) :
    ∃ left, Move s st (.reaction l) l.id left (loud es) ∧ After st l.id left st' := by
  obtain ⟨own, h⟩ := Option.ite_none_right_eq_some.mp h
  obtain ⟨⟨r, res⟩, steps, h⟩ := Option.map_eq_some_iff.mp h
  obtain ⟨old, stays⟩ := ownDelivery_spec own
  have busy := (Reaction.contains_before steps).trans old
  obtain ⟨puts, rest⟩ := holds_alone sound (sound.deliveries l.id busy)
  have gives := puts_releaseAll puts ((Reaction.step_ending steps).map Reply.invocation) stays
  rw [reacted_eq] at h
  obtain ⟨rfl, rfl⟩ := Prod.mk.inj h
  simp only [loud_settle, settle_state, told_ofReaction]
  exact ⟨_, .reaction (.own own) steps, gives, rest, rfl, rfl, rfl⟩

theorem giveBack_move (sound : st.Sound) (h : step s st (.giveBack id) = some (st', es)) :
    ∃ left, Move s st (.giveBack id) id left (loud es) ∧ After st id left st' := by
  obtain ⟨keeps, h⟩ := Option.ite_none_right_eq_some.mp h
  obtain ⟨rfl, rfl⟩ := Prod.mk.inj (Option.some.inj h)
  have holder : id ∈ st.pool.holders := by
    simp only [State.keeps, decide_eq_true_eq] at keeps
    exact keeps.1
  have holds := (Pool.standing_eq_holding_iff sound.pool).mpr holder
  have puts := Pool.release_moves sound.pool holds
  obtain ⟨-, rest⟩ := holds_alone sound holds
  rw [loud_wakes]
  exact ⟨_, .giveBack keeps, puts, rest, rfl, rfl, rfl⟩

/-- What nobody is told of leaves a state as it is. -/
theorem settle_quiet {es : List Effect} (quiet : es.filterMap Effect.told? = []) (st : State) :
    (st.settle es).1 = st := by
  rw [settle_state, quiet]
  rfl

/-- What the drop of a request comes to. -/
theorem drop_eq {d : Dispatch.State} {des : List Dispatch.Effect} {r : Reaction.State}
    {res : List Reaction.Effect}
    (dispatch : (Dispatch.step s.dispatch st.dispatch (.drop id)).getD (st.dispatch, []) = (d, des))
    (reaction : (Reaction.step s.reaction st.reaction (.drop id)).getD (st.reaction, []) = (r, res))
    (quiet : des.filterMap Dispatch.Effect.told? = [])
    (quiet' : res.filterMap Reaction.Effect.told? = []) :
    (st.drop s id).1 =
        { st with
          pool := (st.pool.leave id).1
          waiting := st.waiting.erase id
          dispatch := d
          reaction := r } ∧
      loud (st.drop s id).2 = loud (des.map .ofDispatch) ++ loud (res.map .ofReaction) := by
  have told : (des.map Effect.ofDispatch).filterMap Effect.told? = [] := by
    rw [told_ofDispatch, quiet]
    rfl
  have told' : (res.map Effect.ofReaction).filterMap Effect.told? = [] := by
    rw [told_ofReaction, quiet']
    rfl
  simp only [State.drop, dispatch, reaction, dispatched_eq, reacted_eq, State.withPool,
    settle_quiet told, settle_quiet told', loud_append, loud_settle, loud_wakes, List.append_nil]
  trivial

theorem drop_move (sound : st.Sound) (there : st.pool.standing id ≠ .away) :
    ∃ left, Move s st (.drop id) id left (loud (st.drop s id).2) ∧
      After st id left (st.drop s id).1 := by
  have puts := Pool.leave_moves sound.pool there
  have rest := get?_erase_waiting st id
  rcases Dispatch.drop_step s.dispatch st.dispatch id with
    ⟨idle, none⟩ | ⟨busy, d, des, steps, gone, quiet⟩
  · have stays : (Dispatch.step s.dispatch st.dispatch (.drop id)).getD (st.dispatch, []) =
        (st.dispatch, []) := by rw [none]; rfl
    rcases Reaction.drop_step s.reaction st.reaction id with
      ⟨aside, none⟩ | ⟨busy, r, res, steps, gone, quiet⟩
    · have stays' : (Reaction.step s.reaction st.reaction (.drop id)).getD (st.reaction, []) =
          (st.reaction, []) := by rw [none]; rfl
      obtain ⟨state, effects⟩ := drop_eq stays stays' rfl rfl
      rw [state, effects]
      exact ⟨_, .leave there idle aside, puts, rest, rfl, rfl, rfl⟩
    · have drops : (Reaction.step s.reaction st.reaction (.drop id)).getD (st.reaction, []) =
          (r, res) := by rw [steps]; rfl
      obtain ⟨state, effects⟩ := drop_eq stays drops rfl quiet
      have away : st.pool.Puts id (.ofBusy (r.deliveries.contains id)) (st.pool.leave id).1 := by
        rw [gone]
        exact puts
      rw [state, effects]
      exact ⟨_, .reaction (.drop id) steps, away, rest, rfl, rfl, rfl⟩
  · have drops : (Dispatch.step s.dispatch st.dispatch (.drop id)).getD (st.dispatch, []) =
        (d, des) := by rw [steps]; rfl
    have away : st.pool.Puts id (.ofBusy (d.calls.contains id)) (st.pool.leave id).1 := by
      rw [gone]
      exact puts
    rcases Reaction.drop_step s.reaction st.reaction id with ⟨-, none⟩ | ⟨busy', -⟩
    · have stays : (Reaction.step s.reaction st.reaction (.drop id)).getD (st.reaction, []) =
          (st.reaction, []) := by rw [none]; rfl
      obtain ⟨state, effects⟩ := drop_eq drops stays quiet rfl
      have same : loud (des.map .ofDispatch) ++ loud (List.map .ofReaction []) =
          loud (des.map .ofDispatch) := List.append_nil _
      rw [state, effects, same]
      exact ⟨_, .dispatch (.drop id) steps, away, rest, rfl, rfl, rfl⟩
    · exact absurd ((sound.apart id busy).symm.trans busy') (by simp)

/-- **Every step is a move**, and leaves what its move says; or the host is shut down. -/
theorem step_move (sound : st.Sound) (h : step s st l = some (st', es)) :
    (l = .shutdown ∧ st' = { st with pool := st.pool.close, shutdown := true } ∧
      loud es = [.stop]) ∨
    ∃ id left, l.id? = some id ∧ Move s st l id left (loud es) ∧ After st id left st' := by
  cases l with
  | request id work =>
    obtain ⟨new, h⟩ := Option.ite_none_left_eq_some.mp h
    have new : st.contains id = false := by simpa using new
    obtain ⟨left, move, after⟩ := request_move (s := s) (w := work) sound new
    rw [Option.some.inj h] at move after
    exact .inr ⟨id, left, rfl, move, after⟩
  | resume id =>
    obtain ⟨left, move, after⟩ := resume_move sound h
    exact .inr ⟨id, left, rfl, move, after⟩
  | expire id =>
    obtain ⟨left, move, after⟩ := expire_move sound h
    exact .inr ⟨id, left, rfl, move, after⟩
  | dispatch label =>
    obtain ⟨left, move, after⟩ := dispatch_move sound h
    exact .inr ⟨label.id, left, rfl, move, after⟩
  | reaction label =>
    obtain ⟨left, move, after⟩ := reaction_move sound h
    exact .inr ⟨label.id, left, rfl, move, after⟩
  | giveBack id =>
    obtain ⟨left, move, after⟩ := giveBack_move sound h
    exact .inr ⟨id, left, rfl, move, after⟩
  | drop id =>
    obtain ⟨there, h⟩ := Option.ite_none_right_eq_some.mp h
    obtain ⟨left, move, after⟩ := drop_move (s := s) sound (contains_iff.mp there)
    rw [Option.some.inj h] at move after
    exact .inr ⟨id, left, rfl, move, after⟩
  | shutdown =>
    obtain ⟨rfl, rfl⟩ := Prod.mk.inj (Option.some.inj h)
    refine .inl ⟨rfl, rfl, ?_⟩
    rw [loud_append, loud_wakes]
    rfl

/-! ## Steps keep a state sound -/

/-- What a step leaves goes together, and is about the request `id` only. -/
structure Left.Fits (left : Left) (st : State) (id : CallId) : Prop where
  waits : left.work?.isSome = true ↔ left.place = .waiting
  calls : left.dispatch.calls.contains id = true → left.place = .holding
  deliveries : left.reaction.deliveries.contains id = true → left.place = .holding
  apart : left.dispatch.calls.contains id = true → left.reaction.deliveries.contains id = false
  otherCalls : ∀ id', id' ≠ id →
    left.dispatch.calls.contains id' = st.dispatch.calls.contains id'
  otherDeliveries : ∀ id', id' ≠ id →
    left.reaction.deliveries.contains id' = st.reaction.deliveries.contains id'

theorem fits_left (idle : st.dispatch.calls.contains id = false)
    (aside : st.reaction.deliveries.contains id = false) {place : Standing} {work? : Option Work}
    (waits : work?.isSome = true ↔ place = .waiting) : (st.left place work?).Fits st id where
  waits := waits
  calls := fun busy => absurd (idle.symm.trans busy) Bool.false_ne_true
  deliveries := fun busy => absurd (aside.symm.trans busy) Bool.false_ne_true
  apart := fun _ => aside
  otherCalls := fun _ _ => rfl
  otherDeliveries := fun _ _ => rfl

theorem ofBusy_iff (busy : Bool) : Standing.ofBusy busy = .holding ↔ busy = true := by
  cases busy <;> simp [Standing.ofBusy]

theorem ofBusy_ne_waiting (busy : Bool) : Standing.ofBusy busy ≠ .waiting := by
  cases busy <;> simp [Standing.ofBusy]

/-- Who takes a step in the dispatcher has no delivery. -/
theorem InDispatch.aside (sound : st.Sound) {l' : Dispatch.Label}
    {r : Dispatch.State × List Dispatch.Effect} (is : InDispatch st l l')
    (steps : Dispatch.step s.dispatch st.dispatch l' = some r) :
    st.reaction.deliveries.contains l'.id = false := by
  have before := Dispatch.contains_before steps
  cases is with
  | arrive gets => exact sound.aside gets.not_holding
  | own own => exact sound.apart _ (before.trans (own_spec own).1)
  | drop id => exact sound.apart id before

/-- Who takes a step in the reaction handler has no call in the dispatcher. -/
theorem InReaction.idle (sound : st.Sound) {l' : Reaction.Label}
    {r : Reaction.State × List Reaction.Effect} (is : InReaction st l l')
    (steps : Reaction.step s.reaction st.reaction l' = some r) :
    st.dispatch.calls.contains l'.id = false := by
  have before := Reaction.contains_before steps
  have idle : ∀ {id : CallId}, st.reaction.deliveries.contains id = true →
      st.dispatch.calls.contains id = false := by
    intro id busy
    by_contra calls
    have aside := sound.apart id (Bool.of_not_eq_false calls)
    exact absurd (aside.symm.trans busy) Bool.false_ne_true
  cases is with
  | arrive gets => exact sound.idle gets.not_holding
  | own own => exact idle (before.trans (ownDelivery_spec own).1)
  | drop id => exact idle before

theorem Move.fits (sound : st.Sound) {left : Left} (m : Move s st l id left es) :
    left.Fits st id := by
  cases m with
  | turnAway new _ =>
    exact fits_left (sound.idle (by simp [new])) (sound.aside (by simp [new])) (by simp)
  | queue new _ _ =>
    exact fits_left (sound.idle (by simp [new])) (sound.aside (by simp [new])) (by simp)
  | keep gets =>
    exact fits_left (sound.idle gets.not_holding) (sound.aside gets.not_holding) (by simp)
  | @dispatch _ l' d _ is steps =>
    exact
      { waits := by simp [ofBusy_ne_waiting]
        calls := (ofBusy_iff _).mpr
        deliveries := fun busy => absurd ((is.aside sound steps).symm.trans busy) (by simp)
        apart := fun _ => is.aside sound steps
        otherCalls := fun _ other => Dispatch.contains_other steps other
        otherDeliveries := fun _ _ => rfl }
  | @reaction _ l' r _ is steps =>
    exact
      { waits := by simp [ofBusy_ne_waiting]
        calls := fun busy => absurd ((is.idle sound steps).symm.trans busy) (by simp)
        deliveries := (ofBusy_iff _).mpr
        apart := fun busy => absurd ((is.idle sound steps).symm.trans busy) (by simp)
        otherCalls := fun _ _ => rfl
        otherDeliveries := fun _ other => Reaction.contains_other steps other }
  | tooLong inLine _ =>
    have waits := Pool.standing_eq_waiting_iff.mpr (.inl inLine)
    exact fits_left (sound.idle (by simp [waits])) (sound.aside (by simp [waits])) (by simp)
  | tooLate waits _ =>
    exact fits_left (sound.idle (by simp [waits])) (sound.aside (by simp [waits])) (by simp)
  | giveBack keeps =>
    simp only [State.keeps, Bool.not_eq_eq_eq_not, Bool.not_true, decide_eq_true_eq] at keeps
    exact fits_left keeps.2.1 keeps.2.2 (by simp)
  | leave _ idle aside => exact fits_left idle aside (by simp)

theorem Move.sound (sound : st.Sound) {left : Left} (m : Move s st l id left es)
    (after : After st id left st') : st'.Sound := by
  have fits := m.fits sound
  obtain ⟨moves, place⟩ := after.pool
  constructor
  · exact moves.sound
  · intro id'
    rw [after.waiting]
    by_cases same : id' = id
    · rw [if_pos same, same, place]
      exact fits.waits
    · rw [if_neg same, moves.others id' same]
      exact sound.waits id'
  · intro id' busy
    rw [after.dispatch] at busy
    by_cases same : id' = id
    · subst same
      exact place.trans (fits.calls busy)
    · rw [moves.others id' same]
      exact sound.calls id' (fits.otherCalls id' same ▸ busy)
  · intro id' busy
    rw [after.reaction] at busy
    by_cases same : id' = id
    · subst same
      exact place.trans (fits.deliveries busy)
    · rw [moves.others id' same]
      exact sound.deliveries id' (fits.otherDeliveries id' same ▸ busy)
  · intro id' busy
    rw [after.dispatch] at busy
    rw [after.reaction]
    by_cases same : id' = id
    · subst same
      exact fits.apart busy
    · rw [fits.otherDeliveries id' same]
      exact sound.apart id' (fits.otherCalls id' same ▸ busy)

theorem sound_close (sound : st.Sound) :
    State.Sound { st with pool := st.pool.close, shutdown := true } where
  pool := ⟨sound.pool.conserved, sound.pool.nodup⟩
  waits := sound.waits
  calls := sound.calls
  deliveries := sound.deliveries
  apart := sound.apart

/-- **A step keeps a state sound.** -/
theorem State.Sound.step (sound : st.Sound) (h : Host.step s st l = some (st', es)) :
    st'.Sound := by
  rcases step_move sound h with ⟨-, rfl, -⟩ | ⟨id, left, -, m, after⟩
  · exact sound_close sound
  · exact m.sound sound after

end Host

end ChangeRelay
