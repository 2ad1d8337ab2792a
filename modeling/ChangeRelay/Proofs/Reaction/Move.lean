import ChangeRelay.Proofs.Run
import ChangeRelay.Reaction.Step

/-!
# What a step of a reaction handler changes

A step is taken by one delivery. It changes that delivery and the window, and a delivery that ends
while the pipeline has its invocation releases those that wait for it. `Move` lists the steps with
what each of them leaves (`Left`), and `After` says that everything else is as before.

* **`step_move`**: every step is a move, and what it leaves is what its move says.
* **`Move.step`**: every move can be taken.
* **`step_booked`**: what a step adds to the counts; `step_counts` is what follows of applications.
* `step_stopped`: when a step raises the signal to stop.
* `machine`: the handler as a machine that serves deliveries.

Nothing behind this module opens the definition of `step`.
-/

namespace ChangeRelay.Reaction

/-! ## Moves -/

/-- The delivery that takes a step. -/
def Label.id : Label → CallId
  | .arrive id _ => id
  | .answer id _ => id
  | .resume id => id
  | .expire id => id
  | .drop id => id

/-- The invocation that a delivery comes in with. -/
def Label.request? : Label → Option Wire.Invocation
  | .arrive _ i => some i
  | _ => none

/-- A delivery after the delivery `owner` has ended. -/
def Delivery.release (owner : CallId) (reply? : Option InvocationReply) (d : Delivery) : Delivery :=
  if d.phase = .awaiting owner then { d with phase := .released reply? } else d

/-- The deliveries that are told of the end of the delivery `id`. -/
def wakes (st : State) (id : CallId) : List Effect :=
  ((st.deliveries.erase id).entries.filter fun p => p.2.phase = .awaiting id).map fun p => .wake p.1

/-- What is done when so many invocations have been applied. -/
def stops (s : Settings) (applied : Nat) : List Effect :=
  match s.stopAfter with
  | none => []
  | some limit =>
    if .ofNat applied = limit then
      [.log ⟨.info, "invocation limit reached; signalling stop",
        [("limit", decimal limit.toNat)]⟩, .stop]
    else []

theorem not_mem_wakes {e : Effect} (he : ∀ c, e ≠ .wake c) (st : State) (id : CallId) :
    e ∉ wakes st id := by
  intro h
  obtain ⟨p, -, hp⟩ := List.mem_map.mp h
  exact he p.1 hp.symm

theorem not_mem_stops {e : Effect} (he : ∀ line, e ≠ .log line) (hs : e ≠ .stop) (s : Settings)
    (n : Nat) : e ∉ stops s n := by
  unfold stops
  split
  · simp
  · split
    · simp [he, hs]
    · simp

theorem not_mem_correlationLines {e : Effect} (he : ∀ line, e ≠ .log line) (s : Settings)
    (a : Invocation) : e ∉ correlationLines s a := by
  unfold correlationLines
  split
  · simp
  · split
    · simp [he]
    · simp [he]

/-- What a step leaves of its delivery and of the window, and with what those are released that
waited for the delivery, if they are. -/
structure Left where
  delivery? : Option Delivery
  release? : Option (Option InvocationReply)
  window : Window

/-- The steps, with what each leaves and does to the world around. -/
inductive Move (s : Settings) (st : State) : Label → Left → List Effect → Prop
  | unnamed {id : CallId} {i : Wire.Invocation} (free : st.deliveries.get? id = none)
      (unnamed : i.id = "") :
      Move s st (.arrive id i) ⟨none, none, st.window⟩
        [.log ⟨.warn, "invocation rejected: empty id", [("query_id", i.query)]⟩,
          .reply id (failedReply i.id Invalid.emptyInvocationId.message)]
  | again {id : CallId} {i : Wire.Invocation} {reply : InvocationReply}
      (free : st.deliveries.get? id = none) (named : i.id ≠ "")
      (seen : st.window.seen? i.id = some (.done reply)) :
      Move s st (.arrive id i) ⟨none, none, st.window⟩
        [.log ⟨.debug, "duplicate invocation answered from window", [("invocation_id", i.id)]⟩,
          .reply id reply]
  | await {id owner : CallId} {i : Wire.Invocation} (free : st.deliveries.get? id = none)
      (named : i.id ≠ "") (seen : st.window.seen? i.id = some (.inFlight owner)) :
      Move s st (.arrive id i) ⟨some ⟨i.id, .awaiting owner⟩, none, st.window⟩
        [.log ⟨.debug, "duplicate of an in-flight invocation; awaiting it",
          [("invocation_id", i.id)]⟩]
  | refuse {id : CallId} {i : Wire.Invocation} {cause : Invalid}
      (free : st.deliveries.get? id = none) (named : i.id ≠ "")
      (new : st.window.seen? i.id = none) (bad : check s i = .error cause) :
      Move s st (.arrive id i)
        ⟨none, some (some (failedReply i.id cause.message)),
          (st.window.begin i.id id).abandon i.id⟩
        (.log ⟨.warn, "invocation rejected",
            [("invocation_id", i.id), ("err", cause.message)]⟩ ::
          (wakes st id ++ [.reply id (failedReply i.id cause.message)]))
  | apply {id : CallId} {i : Wire.Invocation} {a : Invocation}
      (free : st.deliveries.get? id = none) (named : i.id ≠ "")
      (new : st.window.seen? i.id = none) (good : check s i = .ok a) :
      Move s st (.arrive id i)
        ⟨some ⟨i.id, .applying a⟩, none, st.window.begin i.id id⟩
        (correlationLines s a ++ [.apply id a])
  | fail {id : CallId} {x : String} {a : Invocation} (fault : Pipeline.Fault)
      (at_ : st.deliveries.get? id = some ⟨x, .applying a⟩) :
      Move s st (.answer id (.failed fault))
        ⟨none, some (some (failedReply a.id fault.message)), st.window.abandon a.id⟩
        (.log ⟨.warn, "pipeline failed to apply invocation",
            [("invocation_id", a.id), ("err", fault.message)]⟩ ::
          (wakes st id ++ [.reply id (failedReply a.id fault.message)]))
  | complete {id : CallId} {x : String} {a : Invocation}
      (at_ : st.deliveries.get? id = some ⟨x, .applying a⟩) :
      Move s st (.answer id .taken)
        ⟨none, some (some (appliedReply a)),
          st.window.complete s.remembered a.id (appliedReply a)⟩
        (wakes st id ++ stops s (st.counts.applied + 1) ++ [.reply id (appliedReply a)])
  | resume {id : CallId} {x : String} {reply? : Option InvocationReply}
      (at_ : st.deliveries.get? id = some ⟨x, .released reply?⟩) :
      Move s st (.resume id) ⟨none, none, st.window⟩
        [.reply id (reply?.getD (interruptedReply x))]
  | expire {id owner : CallId} {x : String}
      (at_ : st.deliveries.get? id = some ⟨x, .awaiting owner⟩) :
      Move s st (.expire id) ⟨none, none, st.window⟩ [.reply id (unfinishedReply s x)]
  | interrupt {id : CallId} {x : String} {a : Invocation}
      (at_ : st.deliveries.get? id = some ⟨x, .applying a⟩) :
      Move s st (.drop id) ⟨none, some none, st.window.abandon x⟩ (wakes st id)
  | leave {id : CallId} {d : Delivery} (at_ : st.deliveries.get? id = some d)
      (idle : ∀ a, d.phase ≠ .applying a) :
      Move s st (.drop id) ⟨none, none, st.window⟩ []

/-- What becomes of a delivery that does not take the step. -/
def Left.keep (left : Left) (id : CallId) (d : Delivery) : Delivery :=
  match left.release? with
  | none => d
  | some reply? => d.release id reply?

/-- `st'` is `st` but for the delivery `id`, those that it releases, and the window. -/
structure After (st : State) (id : CallId) (left : Left) (st' : State) : Prop where
  window : st'.window = left.window
  deliveries : ∀ id', st'.deliveries.get? id' =
    if id' = id then left.delivery? else (st.deliveries.get? id').map (left.keep id)

/-! ## Releasing deliveries -/

theorem release_get? (st : State) (owner : CallId) (reply? : Option InvocationReply)
    (id : CallId) : (st.release owner reply?).1.deliveries.get? id =
      (st.deliveries.get? id).map (Delivery.release owner reply?) := by
  simp only [State.release, Table.get?_map, decide_eq_true_eq]
  rfl

theorem release_wakes {st st₁ : State} {owner : CallId}
    (h : st₁.deliveries = st.deliveries.erase owner) (reply? : Option InvocationReply) :
    (st₁.release owner reply?).2 = wakes st owner := by
  simp only [State.release, wakes, h]

/-- A delivery ends, and those that waited for it are released. -/
theorem After.of_release {st st₁ : State} {id : CallId} {reply? : Option InvocationReply}
    (h : st₁.deliveries = st.deliveries.erase id) :
    After st id ⟨none, some reply?, st₁.window⟩ (st₁.release id reply?).1 where
  window := rfl
  deliveries := fun id' => by
    rw [release_get?, h, Table.get?_erase]
    by_cases hid : id' = id
    · rw [if_pos hid, if_pos hid]
      rfl
    · rw [if_neg hid, if_neg hid]
      rfl

/-- A delivery is written, and nobody is released. -/
theorem After.of_write {st st' : State} {id : CallId} {delivery? : Option Delivery}
    {window : Window} (hw : st'.window = window) (hd : ∀ id', st'.deliveries.get? id' =
      if id' = id then delivery? else st.deliveries.get? id') :
    After st id ⟨delivery?, none, window⟩ st' where
  window := hw
  deliveries := fun id' => by
    rw [hd]
    by_cases hid : id' = id
    · rw [if_pos hid, if_pos hid]
    · rw [if_neg hid, if_neg hid]
      cases st.deliveries.get? id' <;> rfl

/-- What a step leaves is seen in the window and the deliveries only. -/
theorem After.congr {st st₁ st' : State} {id : CallId} {left : Left} (after : After st id left st₁)
    (window : st'.window = st₁.window) (deliveries : st'.deliveries = st₁.deliveries) :
    After st id left st' where
  window := window.trans after.window
  deliveries := fun id' => by rw [deliveries, after.deliveries]

/-! ## Steps are moves -/

theorem fail_effects {st : State} (st₁ : State) (id : CallId) (reply : InvocationReply)
    (h : st₁.deliveries = st.deliveries) :
    (st₁.fail id reply).2 = wakes st id ++ [.reply id reply] := by
  have erased : ∀ w, { st₁ with window := w, deliveries := st₁.deliveries.erase id }.deliveries =
      st.deliveries.erase id := fun _ => by rw [h]
  simp only [State.fail]
  rw [release_wakes (erased _)]

theorem fail_after {st st₁ : State} {id : CallId} (reply : InvocationReply)
    (h : st₁.deliveries = st.deliveries) :
    After st id ⟨none, some (some reply), st₁.window.abandon reply.id⟩ (st₁.fail id reply).1 := by
  have erased : ∀ w, { st₁ with window := w, deliveries := st₁.deliveries.erase id }.deliveries =
      st.deliveries.erase id := fun _ => by rw [h]
  exact .of_release (erased _)

/-- An invocation that does not pass the check ends its delivery. -/
theorem deliver_error {s : Settings} {i : Wire.Invocation} {cause : Invalid}
    (h : check s i = .error cause) (st : State) (id : CallId) :
    st.deliver s id i =
      let st₁ := { st with window := st.window.begin i.id id, counts := st.counts.reject }
      ((st₁.fail id (failedReply i.id cause.message)).1,
        .log ⟨.warn, "invocation rejected",
          [("invocation_id", i.id), ("err", cause.message)]⟩ ::
        (st₁.fail id (failedReply i.id cause.message)).2) := by
  unfold State.deliver
  rw [h]

theorem deliver_ok {s : Settings} {i : Wire.Invocation} {a : Invocation}
    (h : check s i = .ok a) (st : State) (id : CallId) :
    st.deliver s id i =
      ({ st with
          window := st.window.begin i.id id
          deliveries := st.deliveries.set id ⟨i.id, .applying a⟩ },
        correlationLines s a ++ [.apply id a]) := by
  unfold State.deliver
  rw [h]

theorem deliver_move (s : Settings) {st st₁ : State} {id : CallId} {i : Wire.Invocation}
    (free : st.deliveries.get? id = none) (named : i.id ≠ "")
    (new : st.window.seen? i.id = none) (deliveries : st₁.deliveries = st.deliveries)
    (window : st₁.window = st.window) :
    ∃ left, Move s st (.arrive id i) left (st₁.deliver s id i).2 ∧
      After st id left (st₁.deliver s id i).1 := by
  cases h : check s i with
  | error cause =>
    have m := Move.refuse free named new h
    rw [deliver_error h, window]
    refine ⟨_, ?_, fail_after _ deliveries⟩
    let st₂ : State :=
      { st₁ with window := st.window.begin i.id id, counts := st₁.counts.reject }
    rw [← fail_effects st₂ id (failedReply i.id cause.message) deliveries] at m
    exact m
  | ok a =>
    have m := Move.apply free named new h
    rw [deliver_ok h, window, deliveries]
    exact ⟨_, m, .of_write rfl fun id' => Table.get?_set _ _ _ _⟩

theorem arrive_move (s : Settings) {st : State} {id : CallId} (i : Wire.Invocation)
    (free : st.deliveries.get? id = none) :
    ∃ left, Move s st (.arrive id i) left (st.arrive s id i).2 ∧
      After st id left (st.arrive s id i).1 := by
  have idle : ∀ id', st.deliveries.get? id' =
      if id' = id then none else st.deliveries.get? id' := by
    intro id'
    by_cases hid : id' = id
    · rw [if_pos hid, hid, free]
    · rw [if_neg hid]
  unfold State.arrive
  by_cases hn : i.id = ""
  · have empty : i.id.isEmpty = true := by rw [hn]; rfl
    simp only [empty, if_true]
    exact ⟨_, .unnamed free hn, .of_write rfl idle⟩
  · have named : ¬i.id.isEmpty = true := fun h => hn (String.isEmpty_iff.mp h)
    simp only [named, if_false, Bool.false_eq_true]
    cases hs : st.window.seen? i.id with
    | none => exact deliver_move s free hn hs rfl rfl
    | some seen =>
      cases seen with
      | done reply => exact ⟨_, .again free hn hs, .of_write rfl idle⟩
      | inFlight owner =>
        exact ⟨_, .await free hn hs, .of_write rfl fun id' => Table.get?_set _ _ _ _⟩

/-- The signal to stop is no matter of deliveries. -/
theorem stopIfDone_eq (s : Settings) (st : State) :
    (st.stopIfDone s).1.window = st.window ∧ (st.stopIfDone s).1.deliveries = st.deliveries ∧
      (st.stopIfDone s).2 = stops s st.counts.applied := by
  unfold State.stopIfDone stops
  cases s.stopAfter with
  | none => exact ⟨rfl, rfl, rfl⟩
  | some limit =>
    simp only
    split
    · exact ⟨rfl, rfl, rfl⟩
    · exact ⟨rfl, rfl, rfl⟩

theorem answer_move (s : Settings) {st : State} {id : CallId} {x : String} {a : Invocation}
    (verdict : Pipeline.Verdict) (at_ : st.deliveries.get? id = some ⟨x, .applying a⟩) :
    ∃ left, Move s st (.answer id verdict) left (st.answer s id a verdict).2 ∧
      After st id left (st.answer s id a verdict).1 := by
  cases verdict with
  | failed fault =>
    have m := Move.fail (s := s) fault at_
    have rejected : { st with counts := st.counts.reject }.deliveries = st.deliveries := rfl
    rw [← fail_effects _ id _ rejected] at m
    exact ⟨_, m, fail_after _ rejected⟩
  | taken =>
    have m := Move.complete (s := s) at_
    let st₁ : State := { st with
      counts := st.counts.apply a.payload
      window := st.window.complete s.remembered a.id (appliedReply a)
      deliveries := st.deliveries.erase id }
    have after : After st id _ (st₁.release id (some (appliedReply a))).1 := .of_release rfl
    obtain ⟨window, deliveries, effects⟩ :=
      stopIfDone_eq s (st₁.release id (some (appliedReply a))).1
    refine ⟨_, ?_, after.congr window deliveries⟩
    have stopped : stops s (st.counts.applied + 1) =
        ((st₁.release id (some (appliedReply a))).1.stopIfDone s).2 := effects.symm
    rw [stopped] at m
    exact m

theorem drop_move (s : Settings) {st : State} {id : CallId} {d : Delivery}
    (at_ : st.deliveries.get? id = some d) :
    ∃ left, Move s st (.drop id) left (st.drop id d).2 ∧ After st id left (st.drop id d).1 := by
  obtain ⟨x, phase⟩ := d
  cases phase with
  | applying a =>
    let st₁ : State := { st with
      deliveries := st.deliveries.erase id
      window := st.window.abandon x }
    have after : After st id _ (st₁.release id none).1 := .of_release rfl
    exact ⟨_, .interrupt at_, after⟩
  | awaiting owner =>
    have idle : ∀ a, Phase.awaiting owner ≠ .applying a := fun _ => by simp
    exact ⟨_, .leave at_ idle, .of_write rfl fun id' => Table.get?_erase _ _ _⟩
  | released reply? =>
    have idle : ∀ a, Phase.released reply? ≠ .applying a := fun _ => by simp
    exact ⟨_, .leave at_ idle, .of_write rfl fun id' => Table.get?_erase _ _ _⟩

/-- **Every step is a move**, and leaves what its move says. -/
theorem step_move {s : Settings} {st st' : State} {l : Label} {es : List Effect}
    (h : step s st l = some (st', es)) : ∃ left, Move s st l left es ∧ After st l.id left st' := by
  cases l with
  | arrive id i =>
    simp only [step] at h
    split at h
    · exact absurd h (by simp)
    · next hc =>
      have free : st.deliveries.get? id = none := by
        simpa [Table.contains] using hc
      have := arrive_move s i free
      rw [Option.some.inj h] at this
      exact this
  | answer id verdict =>
    simp only [step] at h
    split at h
    · next at_ =>
      have := answer_move s verdict at_
      rw [Option.some.inj h] at this
      exact this
    · exact absurd h (by simp)
  | resume id =>
    simp only [step] at h
    split at h
    · next at_ =>
      obtain ⟨rfl, rfl⟩ := Prod.mk.inj (Option.some.inj h)
      exact ⟨_, .resume at_, .of_write rfl fun id' => Table.get?_erase _ _ _⟩
    · exact absurd h (by simp)
  | expire id =>
    simp only [step] at h
    split at h
    · next at_ =>
      obtain ⟨rfl, rfl⟩ := Prod.mk.inj (Option.some.inj h)
      exact ⟨_, .expire at_, .of_write rfl fun id' => Table.get?_erase _ _ _⟩
    · exact absurd h (by simp)
  | drop id =>
    simp only [step] at h
    split at h
    · next d at_ =>
      have := drop_move s at_
      rw [Option.some.inj h] at this
      exact this
    · exact absurd h (by simp)

/-! ## Moves are steps -/

/-- A call applies one invocation. -/
theorem applying_unique {st : State} {c : CallId} {x y : String} {a b : Invocation}
    (h : st.deliveries.get? c = some ⟨x, .applying a⟩)
    (h' : st.deliveries.get? c = some ⟨y, .applying b⟩) : x = y ∧ a = b := by
  obtain ⟨rfl, phase⟩ := Delivery.mk.inj (Option.some.inj (h.symm.trans h'))
  exact ⟨rfl, Phase.applying.inj phase⟩

/-- A label stands for one move at most. -/
theorem Move.unique {s : Settings} {st : State} {l : Label} {left left' : Left}
    {es es' : List Effect} (m : Move s st l left es) (m' : Move s st l left' es') :
    left = left' ∧ es = es' := by
  cases m with
  | unnamed free unnamed =>
    cases m' with
    | unnamed => exact ⟨rfl, rfl⟩
    | again _ named _ => exact absurd unnamed named
    | await _ named _ => exact absurd unnamed named
    | refuse _ named _ _ => exact absurd unnamed named
    | apply _ named _ _ => exact absurd unnamed named
  | again free named seen =>
    cases m' with
    | unnamed _ unnamed => exact absurd unnamed named
    | again _ _ seen' =>
      obtain rfl := Seen.done.inj (Option.some.inj (seen.symm.trans seen'))
      exact ⟨rfl, rfl⟩
    | await _ _ seen' => exact absurd (seen.symm.trans seen') (by simp)
    | refuse _ _ new _ => exact absurd (seen.symm.trans new) (by simp)
    | apply _ _ new _ => exact absurd (seen.symm.trans new) (by simp)
  | await free named seen =>
    cases m' with
    | unnamed _ unnamed => exact absurd unnamed named
    | again _ _ seen' => exact absurd (seen.symm.trans seen') (by simp)
    | await _ _ seen' =>
      obtain rfl := Seen.inFlight.inj (Option.some.inj (seen.symm.trans seen'))
      exact ⟨rfl, rfl⟩
    | refuse _ _ new _ => exact absurd (seen.symm.trans new) (by simp)
    | apply _ _ new _ => exact absurd (seen.symm.trans new) (by simp)
  | refuse free named new bad =>
    cases m' with
    | unnamed _ unnamed => exact absurd unnamed named
    | again _ _ seen => exact absurd (seen.symm.trans new) (by simp)
    | await _ _ seen => exact absurd (seen.symm.trans new) (by simp)
    | refuse _ _ _ bad' =>
      obtain rfl := Except.error.inj (bad.symm.trans bad')
      exact ⟨rfl, rfl⟩
    | apply _ _ _ good => exact absurd (bad.symm.trans good) (by simp)
  | apply free named new good =>
    cases m' with
    | unnamed _ unnamed => exact absurd unnamed named
    | again _ _ seen => exact absurd (seen.symm.trans new) (by simp)
    | await _ _ seen => exact absurd (seen.symm.trans new) (by simp)
    | refuse _ _ _ bad => exact absurd (bad.symm.trans good) (by simp)
    | apply _ _ _ good' =>
      obtain rfl := Except.ok.inj (good.symm.trans good')
      exact ⟨rfl, rfl⟩
  | fail fault at_ =>
    cases m' with
    | fail _ at_' =>
      obtain ⟨rfl, rfl⟩ := applying_unique at_ at_'
      exact ⟨rfl, rfl⟩
  | complete at_ =>
    cases m' with
    | complete at_' =>
      obtain ⟨rfl, rfl⟩ := applying_unique at_ at_'
      exact ⟨rfl, rfl⟩
  | resume at_ =>
    cases m' with
    | resume at_' =>
      obtain ⟨rfl, phase⟩ := Delivery.mk.inj (Option.some.inj (at_.symm.trans at_'))
      obtain rfl := Phase.released.inj phase
      exact ⟨rfl, rfl⟩
  | expire at_ =>
    cases m' with
    | expire at_' =>
      obtain ⟨rfl, -⟩ := Delivery.mk.inj (Option.some.inj (at_.symm.trans at_'))
      exact ⟨rfl, rfl⟩
  | interrupt at_ =>
    cases m' with
    | interrupt at_' =>
      obtain ⟨rfl, -⟩ := Delivery.mk.inj (Option.some.inj (at_.symm.trans at_'))
      exact ⟨rfl, rfl⟩
    | leave at_' idle =>
      obtain rfl := Option.some.inj (at_.symm.trans at_')
      exact absurd rfl (idle _)
  | leave at_ idle =>
    cases m' with
    | interrupt at_' =>
      obtain rfl := Option.some.inj (at_.symm.trans at_')
      exact absurd rfl (idle _)
    | leave => exact ⟨rfl, rfl⟩

theorem Move.isSome_step {s : Settings} {st : State} {l : Label} {left : Left}
    {es : List Effect} (m : Move s st l left es) : (step s st l).isSome = true := by
  cases m with
  | unnamed free _ => simp [step, Table.contains, free]
  | again free _ _ => simp [step, Table.contains, free]
  | await free _ _ => simp [step, Table.contains, free]
  | refuse free _ _ _ => simp [step, Table.contains, free]
  | apply free _ _ _ => simp [step, Table.contains, free]
  | fail _ at_ => simp [step, at_]
  | complete at_ => simp [step, at_]
  | resume at_ => simp [step, at_]
  | expire at_ => simp [step, at_]
  | interrupt at_ => simp [step, at_]
  | leave at_ _ => simp [step, at_]

/-- **Every move can be taken.** -/
theorem Move.step {s : Settings} {st : State} {l : Label} {left : Left} {es : List Effect}
    (m : Move s st l left es) :
    ∃ st', Reaction.step s st l = some (st', es) ∧ After st l.id left st' := by
  obtain ⟨⟨st', es'⟩, h⟩ := Option.isSome_iff_exists.mp m.isSome_step
  obtain ⟨left', m', after⟩ := step_move h
  obtain ⟨rfl, rfl⟩ := m.unique m'
  exact ⟨st', h, after⟩

/-! ## What is counted -/

/-- What a step adds to the counts, by what it leaves of its delivery. -/
inductive Booked (st : State) : Label → Left → Counts → Prop
  /-- An invocation comes in and is refused at once. -/
  | refused {id : CallId} {i : Wire.Invocation} {left : Left} (ends : left.delivery? = none) :
      Booked st (.arrive id i) left st.counts.receive.reject
  /-- One comes in whose id is known. -/
  | repeated {id : CallId} {i : Wire.Invocation} {left : Left}
      (aside : ∀ x a, left.delivery? ≠ some ⟨x, .applying a⟩) :
      Booked st (.arrive id i) left st.counts.receive.duplicate
  /-- One comes in and is handed to the pipeline. -/
  | handed {id : CallId} {i : Wire.Invocation} {left : Left} {x : String} {a : Invocation}
      (applying : left.delivery? = some ⟨x, .applying a⟩) :
      Booked st (.arrive id i) left st.counts.receive
  | failed {id : CallId} {fault : Pipeline.Fault} {left : Left} {x : String} {a : Invocation}
      (at_ : st.deliveries.get? id = some ⟨x, .applying a⟩) (ends : left.delivery? = none) :
      Booked st (.answer id (.failed fault)) left st.counts.reject
  | applied {id : CallId} {left : Left} {x : String} {a : Invocation}
      (at_ : st.deliveries.get? id = some ⟨x, .applying a⟩) (ends : left.delivery? = none) :
      Booked st (.answer id .taken) left (st.counts.apply a.payload)
  | interrupted {id : CallId} {left : Left} {x : String} {a : Invocation}
      (at_ : st.deliveries.get? id = some ⟨x, .applying a⟩) (ends : left.delivery? = none) :
      Booked st (.drop id) left st.counts
  /-- A delivery ends that has been counted when it came in. -/
  | aside {l : Label} {left : Left} {d : Delivery} (old : l.request? = none)
      (unanswered : ∀ id verdict, l ≠ .answer id verdict)
      (at_ : st.deliveries.get? l.id = some d) (idle : ∀ a, d.phase ≠ .applying a)
      (ends : left.delivery? = none) : Booked st l left st.counts

theorem arrive_unnamed {s : Settings} {st : State} {id : CallId} {i : Wire.Invocation}
    (unnamed : i.id = "") : (st.arrive s id i).1.counts = st.counts.receive.reject := by
  have empty : i.id.isEmpty = true := by rw [unnamed]; rfl
  simp only [State.arrive, empty, if_true]

theorem arrive_seen {s : Settings} {st : State} {id : CallId} {i : Wire.Invocation} {seen : Seen}
    (named : i.id ≠ "") (known : st.window.seen? i.id = some seen) :
    (st.arrive s id i).1.counts = st.counts.receive.duplicate := by
  have named : ¬i.id.isEmpty = true := fun h => named (String.isEmpty_iff.mp h)
  simp only [State.arrive, named, if_false, Bool.false_eq_true, known]
  cases seen <;> rfl

theorem arrive_bad {s : Settings} {st : State} {id : CallId} {i : Wire.Invocation} {cause : Invalid}
    (named : i.id ≠ "") (new : st.window.seen? i.id = none) (bad : check s i = .error cause) :
    (st.arrive s id i).1.counts = st.counts.receive.reject := by
  have named : ¬i.id.isEmpty = true := fun h => named (String.isEmpty_iff.mp h)
  simp only [State.arrive, named, if_false, Bool.false_eq_true, new, deliver_error bad]
  rfl

theorem arrive_good {s : Settings} {st : State} {id : CallId} {i : Wire.Invocation} {a : Invocation}
    (named : i.id ≠ "") (new : st.window.seen? i.id = none) (good : check s i = .ok a) :
    (st.arrive s id i).1.counts = st.counts.receive := by
  have named : ¬i.id.isEmpty = true := fun h => named (String.isEmpty_iff.mp h)
  simp only [State.arrive, named, if_false, Bool.false_eq_true, new, deliver_ok good]

theorem stopIfDone_counts (s : Settings) (st : State) :
    (st.stopIfDone s).1.counts = st.counts := by
  unfold State.stopIfDone
  split
  · rfl
  · split <;> rfl

theorem answer_taken_counts (s : Settings) (st : State) (id : CallId) (a : Invocation) :
    (st.answer s id a .taken).1.counts = st.counts.apply a.payload := by
  simp only [State.answer]
  rw [stopIfDone_counts]
  rfl

theorem drop_counts (st : State) (id : CallId) (d : Delivery) :
    (st.drop id d).1.counts = st.counts := by
  unfold State.drop
  split <;> rfl

theorem arrive_booked {s : Settings} {st st' : State} {id : CallId} {i : Wire.Invocation}
    {left : Left} {es : List Effect} (m : Move s st (.arrive id i) left es)
    (h : (st.arrive s id i).1 = st') : Booked st (.arrive id i) left st'.counts := by
  subst h
  cases m with
  | unnamed _ unnamed => exact arrive_unnamed unnamed ▸ .refused rfl
  | again _ named seen => exact arrive_seen named seen ▸ .repeated (by simp)
  | await _ named seen => exact arrive_seen named seen ▸ .repeated (by simp)
  | refuse _ named new bad => exact arrive_bad named new bad ▸ .refused rfl
  | apply _ named new good => exact arrive_good named new good ▸ .handed rfl

/-- **What a step adds to the counts.** -/
theorem step_booked {s : Settings} {st st' : State} {l : Label} {es : List Effect}
    (h : step s st l = some (st', es)) :
    ∃ left, After st l.id left st' ∧ Booked st l left st'.counts := by
  obtain ⟨left, m, after⟩ := step_move h
  refine ⟨left, after, ?_⟩
  cases l with
  | arrive id i =>
    simp only [step] at h
    split at h
    · exact absurd h (by simp)
    · exact arrive_booked m (congrArg Prod.fst (Option.some.inj h))
  | answer id verdict =>
    cases m with
    | fail fault at_ =>
      simp only [step, at_] at h
      obtain rfl := (congrArg Prod.fst (Option.some.inj h)).symm
      exact .failed at_ rfl
    | @complete _ x a at_ =>
      simp only [step, at_] at h
      have counts := answer_taken_counts s st id a
      rw [Option.some.inj h] at counts
      exact counts ▸ .applied at_ rfl
  | resume id =>
    cases m with
    | resume at_ =>
      simp only [step, at_] at h
      obtain rfl := (congrArg Prod.fst (Option.some.inj h)).symm
      exact .aside rfl (by simp) at_ (by simp) rfl
  | expire id =>
    cases m with
    | expire at_ =>
      simp only [step, at_] at h
      obtain rfl := (congrArg Prod.fst (Option.some.inj h)).symm
      exact .aside rfl (by simp) at_ (by simp) rfl
  | drop id =>
    have counts {d : Delivery} (at_ : st.deliveries.get? id = some d) :
        st'.counts = st.counts := by
      simp only [step, at_] at h
      have counts := drop_counts st id d
      rwa [Option.some.inj h] at counts
    cases m with
    | interrupt at_ => exact counts at_ ▸ .interrupted at_ rfl
    | leave at_ idle => exact counts at_ ▸ .aside rfl (by simp) at_ idle rfl

/-- What is counted of applied invocations, and of nothing else. -/
def Counts.settled (c : Counts) : Counts := { c with received := 0, duplicates := 0, rejected := 0 }

/-- **A step counts an application**, or nothing of what applications are counted by. -/
theorem step_counts {s : Settings} {st st' : State} {l : Label} {es : List Effect}
    (h : step s st l = some (st', es)) :
    (st'.counts.settled = st.counts.settled ∧ ∀ id, l ≠ .answer id .taken) ∨
    ∃ x a, l = .answer l.id .taken ∧ st.deliveries.get? l.id = some ⟨x, .applying a⟩ ∧
      st'.counts = st.counts.apply a.payload := by
  obtain ⟨left, -, booked⟩ := step_booked h
  generalize st'.counts = counts at booked
  cases booked with
  | refused => exact .inl ⟨rfl, by simp⟩
  | repeated => exact .inl ⟨rfl, by simp⟩
  | handed => exact .inl ⟨rfl, by simp⟩
  | failed => exact .inl ⟨rfl, by simp⟩
  | applied at_ => exact .inr ⟨_, _, rfl, at_, rfl⟩
  | interrupted => exact .inl ⟨rfl, by simp⟩
  | aside _ unanswered => exact .inl ⟨rfl, fun id => unanswered id .taken⟩

/-! ## The signal to stop -/

theorem arrive_stopped (s : Settings) (st : State) (id : CallId) (i : Wire.Invocation) :
    (st.arrive s id i).1.stopped = st.stopped := by
  unfold State.arrive
  by_cases empty : i.id.isEmpty = true
  · simp only [empty, if_true]
  · simp only [empty, if_false, Bool.false_eq_true]
    cases st.window.seen? i.id with
    | none =>
      cases h : check s i with
      | error cause => rw [deliver_error h]; rfl
      | ok a => rw [deliver_ok h]
    | some seen => cases seen <;> rfl

theorem drop_stopped (st : State) (id : CallId) (d : Delivery) :
    (st.drop id d).1.stopped = st.stopped := by
  unfold State.drop
  split <;> rfl

theorem stopIfDone_stopped (s : Settings) (st : State) : (st.stopIfDone s).1.stopped = true ↔
    st.stopped = true ∨ ∃ limit, s.stopAfter = some limit ∧ .ofNat st.counts.applied = limit := by
  unfold State.stopIfDone
  cases s.stopAfter with
  | none => simp
  | some limit =>
    by_cases reached : .ofNat st.counts.applied = limit
    · simp [reached]
    · simp [reached, Ne.symm reached]

/-- **The signal to stop is raised by an application**, the one that reaches the limit, and by
nothing else. -/
theorem step_stopped {s : Settings} {st st' : State} {l : Label} {es : List Effect}
    (h : step s st l = some (st', es)) : st'.stopped = true ↔ st.stopped = true ∨
      (∃ id, l = .answer id .taken) ∧
        ∃ limit, s.stopAfter = some limit ∧ .ofNat (st.counts.applied + 1) = limit := by
  have same (quiet : ∀ id, l ≠ .answer id .taken) (stopped : st'.stopped = st.stopped) :
      st'.stopped = true ↔ st.stopped = true ∨ (∃ id, l = .answer id .taken) ∧
        ∃ limit, s.stopAfter = some limit ∧ .ofNat (st.counts.applied + 1) = limit := by
    rw [stopped, or_iff_left]
    rintro ⟨⟨id, hl⟩, -⟩
    exact quiet id hl
  obtain ⟨left, m, -⟩ := step_move h
  cases l with
  | arrive id i =>
    simp only [step] at h
    split at h
    · exact absurd h (by simp)
    · have stopped := arrive_stopped s st id i
      rw [Option.some.inj h] at stopped
      exact same (by simp) stopped
  | answer id verdict =>
    cases m with
    | fail fault at_ =>
      simp only [step, at_] at h
      obtain rfl := (congrArg Prod.fst (Option.some.inj h)).symm
      exact same (by simp) rfl
    | @complete _ x a at_ =>
      simp only [step, at_] at h
      obtain rfl := (congrArg Prod.fst (Option.some.inj h)).symm
      simp only [State.answer, stopIfDone_stopped]
      refine or_congr Iff.rfl ⟨fun reached => ⟨⟨id, rfl⟩, reached⟩, fun reached => reached.2⟩
  | resume id =>
    cases m with
    | resume at_ =>
      simp only [step, at_] at h
      obtain rfl := (congrArg Prod.fst (Option.some.inj h)).symm
      exact same (by simp) rfl
  | expire id =>
    cases m with
    | expire at_ =>
      simp only [step, at_] at h
      obtain rfl := (congrArg Prod.fst (Option.some.inj h)).symm
      exact same (by simp) rfl
  | drop id =>
    simp only [step] at h
    split at h
    · next d at_ =>
      have stopped := drop_stopped st id d
      rw [Option.some.inj h] at stopped
      exact same (by simp) stopped
    · exact absurd h (by simp)

/-! ## The machine -/

theorem contains_before {s : Settings} {st : State} {l : Label} {r : State × List Effect}
    (h : step s st l = some r) : st.deliveries.contains l.id = l.request?.isNone := by
  obtain ⟨st', es⟩ := r
  obtain ⟨left, m, -⟩ := step_move h
  cases m with
  | unnamed free _ => simp [Label.id, Label.request?, Table.contains, free]
  | again free _ _ => simp [Label.id, Label.request?, Table.contains, free]
  | await free _ _ => simp [Label.id, Label.request?, Table.contains, free]
  | refuse free _ _ _ => simp [Label.id, Label.request?, Table.contains, free]
  | apply free _ _ _ => simp [Label.id, Label.request?, Table.contains, free]
  | fail _ at_ => simp [Label.id, Label.request?, Table.contains, at_]
  | complete at_ => simp [Label.id, Label.request?, Table.contains, at_]
  | resume at_ => simp [Label.id, Label.request?, Table.contains, at_]
  | expire at_ => simp [Label.id, Label.request?, Table.contains, at_]
  | interrupt at_ => simp [Label.id, Label.request?, Table.contains, at_]
  | leave at_ _ => simp [Label.id, Label.request?, Table.contains, at_]

theorem contains_other {s : Settings} {st : State} {l : Label} {r : State × List Effect}
    {id : CallId} (h : step s st l = some r) (hid : id ≠ l.id) :
    r.1.deliveries.contains id = st.deliveries.contains id := by
  obtain ⟨left, -, after⟩ := step_move h
  rw [Table.contains, Table.contains, after.deliveries, if_neg hid, Option.isSome_map]

/-- The handler as a machine that serves deliveries. -/
def machine (s : Settings) : Machine State Label Effect Wire.Invocation where
  start := .start
  step := step s
  name := Label.id
  request? := Label.request?
  busy st id := st.deliveries.contains id
  busy_start _ := rfl
  busy_before := contains_before
  busy_other := contains_other

theorem busy_of_get? (s : Settings) {st : State} {c : CallId} {d : Delivery}
    (at_ : st.deliveries.get? c = some d) : (machine s).busy st c = true := by
  change st.deliveries.contains c = true
  rw [Table.contains, at_]
  rfl

/-- A delivery that is in progress does not come in. -/
theorem request?_eq_none {s : Settings} {st : State} {l : Label} {r : State × List Effect}
    {d : Delivery} (h : step s st l = some r) (at_ : st.deliveries.get? l.id = some d) :
    l.request? = none := by
  have := contains_before h
  rw [Table.contains, at_] at this
  exact Option.isNone_iff_eq_none.mp this.symm

theorem exists_delivery {s : Settings} {st : State} {l : Label} {r : State × List Effect}
    (h : step s st l = some r) (hr : l.request? = none) :
    ∃ d, st.deliveries.get? l.id = some d := by
  have := contains_before h
  rw [hr] at this
  exact Option.isSome_iff_exists.mp this

end ChangeRelay.Reaction
