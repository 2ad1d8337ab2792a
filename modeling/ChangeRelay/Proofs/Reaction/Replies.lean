import ChangeRelay.Proofs.Reaction.Origin

/-!
# What a reply may be believed

A reply of success says that the pipeline has taken the invocation. It need not be the delivery that
is answered which handed it over: an earlier one may have, long ago or while this one waited.

* **`truthful_of_run`**: success is never claimed for what was not applied, and whoever waited is
  told what the delivery it waited for was told.

A delivery that waits may do so no longer than the pipeline may take, and it came in later. So
unless both are out of time at once (`Timers`), it is released before it has to give up.
-/

namespace ChangeRelay.Reaction

/-- What a delivery is told at the moment `m` after `pre` that waited for the call numbered `o`. -/
inductive Shared (s : Settings) (pre : History) (m : Moment State Label Effect) (o : Nat)
    (r : InvocationReply) : Prop
  /-- What that call was told. -/
  | same (e : Ended pre o (some r))
  | interrupted (e : Ended pre o none) (failed : r = interruptedReply r.id)
  /-- That call has not ended, and time is up. -/
  | unfinished (c : CallId) (label : m.label = .expire c) (open_ : ∀ reply?, ¬Ended pre o reply?)
      (failed : r = unfinishedReply s r.id)

/-- The time of the call numbered `n` is up at `due n`. All deliveries have the same time, and no
wait is given up while an invocation is being applied whose time was up earlier. -/
structure Timers (s : Settings) (h : History) (due : Nat → Nat) : Prop where
  later : ∀ {n n'}, n ≤ n' → due n ≤ due n'
  inOrder : ∀ {pre m post c c' x a}, h = pre ++ m :: post → m.label = .expire c →
    m.before.deliveries.get? c' = some ⟨x, .applying a⟩ →
    due m.call ≤ due ((machine s).numberOf pre c')

/-- What is said in replies is so. -/
structure Truthful (s : Settings) (h : History) (st : State) : Prop where
  /-- A reply is about the invocation that was delivered. If it claims success, then an invocation
  of this id has been applied, and it is the reply of that application. -/
  earned : ∀ {pre m post c r}, h = pre ++ m :: post → Effect.reply c r ∈ m.effects →
    ∃ i, ((machine s).arrivals h)[m.call]? = some (c, i) ∧ Earned (pre ++ [m]) i.id r
  /-- A delivery that found its id in flight is told what the one it waited for was told. -/
  shared : ∀ {pre m post c r o}, h = pre ++ m :: post → Effect.reply c r ∈ m.effects →
    Waited s h m.call o → Shared s pre m o r
  /-- It only gives up if both are out of time at once. -/
  tied : ∀ {due pre m post c o}, Timers s h due → h = pre ++ m :: post → m.label = .expire c →
    Waited s h m.call o → due m.call = due o
  /-- As soon as the one has ended, the other can be told. -/
  told : ∀ {c d o reply?}, st.deliveries.get? c = some d →
    Waited s h ((machine s).numberOf h c) o → Ended h o reply? →
    ∃ st', step s st (.resume c) = some (st', [.reply c (reply?.getD (interruptedReply d.id))])
  /-- Until then its invocation is being applied. -/
  waiting : ∀ {c d o}, st.deliveries.get? c = some d → Waited s h ((machine s).numberOf h c) o →
    (∀ reply?, ¬Ended h o reply?) → ∃ owner a, d.phase = .awaiting owner ∧
      (machine s).numberOf h owner = o ∧ st.deliveries.get? owner = some ⟨d.id, .applying a⟩
  /-- A delivery ends in one way only. -/
  once : ∀ {n reply? reply?'}, Ended h n reply? → Ended h n reply?' → reply? = reply?'

variable {s : Settings} {st st' : State} {l : Label} {left : Left} {es : List Effect}
variable {h pre post : History} {m : Moment State Label Effect} {n o : Nat}
variable {c : CallId} {r : InvocationReply}

/-! ## Replies to those who waited -/

/-- Nobody is answered who has just begun to wait. -/
theorem Move.found {i : Wire.Invocation} {owner : CallId} (m : Move s st l left es)
    (hl : l = .arrive c i) (named : i.id ≠ "")
    (seen : st.window.seen? i.id = some (.inFlight owner)) (c' : CallId) (r : InvocationReply) :
    Effect.reply c' r ∉ es := by
  cases m with
  | unnamed _ unnamed =>
    obtain ⟨-, rfl⟩ := Label.arrive.inj hl
    exact absurd unnamed named
  | again _ _ done =>
    obtain ⟨-, rfl⟩ := Label.arrive.inj hl
    exact absurd (done.symm.trans seen) (by simp)
  | await _ _ _ => simp
  | refuse _ _ new _ =>
    obtain ⟨-, rfl⟩ := Label.arrive.inj hl
    exact absurd (new.symm.trans seen) (by simp)
  | apply _ _ _ _ => simp [not_mem_correlationLines]
  | _ => exact absurd hl (by simp)

/-- What a delivery is told that waited. -/
theorem Move.handed {x : String} {phase : Phase} (m : Move s st l left es)
    (at_ : st.deliveries.get? l.id = some ⟨x, phase⟩) (hr : .reply c r ∈ es) :
    (∃ a, phase = .applying a) ∨
    (∃ owner, phase = .awaiting owner ∧ l = .expire l.id ∧ r = unfinishedReply s x) ∨
    ∃ reply?, phase = .released reply? ∧ r = reply?.getD (interruptedReply x) := by
  cases m with
  | unnamed free _ => exact absurd (free.symm.trans at_) (by simp)
  | again free _ _ => exact absurd (free.symm.trans at_) (by simp)
  | await free _ _ => exact absurd (free.symm.trans at_) (by simp)
  | refuse free _ _ _ => exact absurd (free.symm.trans at_) (by simp)
  | apply free _ _ _ => exact absurd (free.symm.trans at_) (by simp)
  | fail _ old =>
    obtain ⟨-, rfl⟩ := Delivery.mk.inj (Option.some.inj (old.symm.trans at_))
    exact .inl ⟨_, rfl⟩
  | complete old =>
    obtain ⟨-, rfl⟩ := Delivery.mk.inj (Option.some.inj (old.symm.trans at_))
    exact .inl ⟨_, rfl⟩
  | @resume id x' reply? old =>
    obtain ⟨rfl, rfl⟩ := Delivery.mk.inj (Option.some.inj (old.symm.trans at_))
    obtain ⟨-, rfl⟩ : c = id ∧ r = reply?.getD (interruptedReply x') := by simpa using hr
    exact .inr (.inr ⟨_, rfl, rfl⟩)
  | @expire id owner x' old =>
    obtain ⟨rfl, rfl⟩ := Delivery.mk.inj (Option.some.inj (old.symm.trans at_))
    obtain ⟨-, rfl⟩ : c = id ∧ r = unfinishedReply s x' := by simpa using hr
    exact .inr (.inl ⟨_, rfl, rfl, rfl⟩)
  | interrupt _ => exact absurd hr (not_mem_wakes (by simp) _ _)
  | leave _ _ => exact absurd hr (by simp)

theorem Move.expires (m : Move s st l left es) (hl : l = .expire c) :
    ∃ owner x, st.deliveries.get? l.id = some ⟨x, .awaiting owner⟩ := by
  cases m with
  | expire at_ => exact ⟨_, _, at_⟩
  | _ => exact absurd hl (by simp)

/-- Where a delivery stands that has begun to wait for the call numbered `o`. -/
theorem Waited.phase (run : (machine s).Run h st) {x : String} {phase : Phase}
    (at_ : st.deliveries.get? c = some ⟨x, phase⟩)
    (w : Waited s h ((machine s).numberOf h c) o) :
    (∃ owner a, phase = .awaiting owner ∧ (machine s).numberOf h owner = o ∧
      st.deliveries.get? owner = some ⟨x, .applying a⟩) ∨
    ∃ reply?, phase = .released reply? ∧ Ended h o reply? := by
  have t := traced_of_run run
  have ord := orderly_of_run run
  cases phase with
  | applying a => exact absurd w (t.applying at_ o)
  | awaiting owner =>
    obtain ⟨a, hd⟩ := ord.owner.mp (ord.awaits at_)
    exact .inl ⟨owner, a, rfl, (t.awaiting at_).unique run w, hd⟩
  | released reply? =>
    obtain ⟨⟨o', w', e⟩, -⟩ := t.released at_
    exact .inr ⟨reply?, rfl, w'.unique run w ▸ e⟩

theorem shared_of_run (run : (machine s).Run h st) (split : h = pre ++ m :: post)
    (hr : .reply c r ∈ m.effects) (w : Waited s h m.call o) : Shared s pre m o r := by
  obtain ⟨run', hm, st₁, hs⟩ := Machine.Run.before (split ▸ run)
  obtain ⟨left, move, -⟩ := step_move hs
  rcases w.before run split with ⟨c', i, owner, hl, named, seen, -⟩ | w
  · exact absurd hr (move.found hl named seen c r)
  · cases new : m.label.request? with
    | some i =>
      have call : m.call = ((machine s).arrivals pre).length := by
        rw [hm]
        exact Machine.callOf_some (M := machine s) new
      exact absurd (w.call_lt run') (by omega)
    | none =>
      obtain ⟨⟨x, phase⟩, at_⟩ := exists_delivery hs new
      have call : m.call = (machine s).numberOf pre m.label.id := by
        rw [hm]
        exact Machine.callOf_none (M := machine s) new
      rw [call] at w
      rcases w.phase run' at_ with ⟨owner, a, rfl, rfl, hd⟩ | ⟨reply?, rfl, e⟩
      · rcases move.handed at_ hr with ⟨a, h⟩ | ⟨_, -, hl, rfl⟩ | ⟨_, h, -⟩
        · exact absurd h (by simp)
        · exact .unfinished _ hl (not_ended run' hd) rfl
        · exact absurd h (by simp)
      · rcases move.handed at_ hr with ⟨a, h⟩ | ⟨_, h, -⟩ | ⟨reply?', h, rfl⟩
        · exact absurd h (by simp)
        · exact absurd h (by simp)
        · obtain rfl := Phase.released.inj h
          cases reply? with
          | none => exact .interrupted e rfl
          | some r => exact .same e

/-- **Whoever gives up waiting is not the only one who is out of time.** -/
theorem tied_of_run (run : (machine s).Run h st) {due : Nat → Nat} (timers : Timers s h due)
    (split : h = pre ++ m :: post) (hl : m.label = .expire c) (w : Waited s h m.call o) :
    due m.call = due o := by
  obtain ⟨run', hm, st₁, hs⟩ := Machine.Run.before (split ▸ run)
  obtain ⟨left, move, -⟩ := step_move hs
  have later := timers.later (Nat.le_of_lt (w.lt run))
  have new : m.label.request? = none := by rw [hl]; rfl
  have call : m.call = (machine s).numberOf pre m.label.id := by
    rw [hm]
    exact Machine.callOf_none (M := machine s) new
  rcases w.before run split with ⟨c', i, owner, hl', -⟩ | w
  · exact absurd (hl.symm.trans hl') (by simp)
  · obtain ⟨owner, x, at_⟩ := move.expires hl
    rw [call] at w
    rcases w.phase run' at_ with ⟨owner', a, -, rfl, hd⟩ | ⟨_, h, -⟩
    · exact Nat.le_antisymm (timers.inOrder split hl hd) later
    · exact absurd h (by simp)

theorem earned_of_run (run : (machine s).Run h st) (split : h = pre ++ m :: post)
    (hr : .reply c r ∈ m.effects) :
    ∃ i, ((machine s).arrivals h)[m.call]? = some (c, i) ∧ Earned (pre ++ [m]) i.id r := by
  obtain ⟨run', hm, st₁, hs⟩ := Machine.Run.before (split ▸ run)
  obtain ⟨left, move, -⟩ := step_move hs
  have t := traced_of_run run'
  have ord := orderly_of_run run'
  obtain ⟨i, hi, new, old⟩ := t.request hs
  have own : c = m.label.id := by
    rcases move.replies with none | ⟨r', only, -⟩
    · exact absurd hr (none c r)
    · exact ((only c r).mp hr).1
  have earned := t.earned ord move hr new old
  have call : (machine s).callOf pre m.label = m.call := (congrArg Moment.call hm).symm
  have moment : next s pre m.before m.label m.effects = m := hm.symm
  rw [moment] at hi earned
  refine ⟨i, ?_, earned⟩
  rw [split, ← List.singleton_append, ← List.append_assoc, own, ← call]
  exact Machine.arrivals_mono _ _ hi

theorem told_of_run (run : (machine s).Run h st) {d : Delivery} {reply? : Option InvocationReply}
    (at_ : st.deliveries.get? c = some d) (w : Waited s h ((machine s).numberOf h c) o)
    (e : Ended h o reply?) : ∃ st',
    step s st (.resume c) = some (st', [.reply c (reply?.getD (interruptedReply d.id))]) := by
  obtain ⟨x, phase⟩ := d
  rcases w.phase run at_ with ⟨owner, a, -, rfl, hd⟩ | ⟨reply?', rfl, e'⟩
  · exact absurd e (not_ended run hd reply?)
  · obtain rfl := ended_unique run e e'
    refine ⟨{ st with deliveries := st.deliveries.erase c }, ?_⟩
    simp only [step, at_]

theorem waiting_of_run (run : (machine s).Run h st) {d : Delivery}
    (at_ : st.deliveries.get? c = some d) (w : Waited s h ((machine s).numberOf h c) o)
    (open_ : ∀ reply?, ¬Ended h o reply?) : ∃ owner a, d.phase = .awaiting owner ∧
      (machine s).numberOf h owner = o ∧ st.deliveries.get? owner = some ⟨d.id, .applying a⟩ := by
  obtain ⟨x, phase⟩ := d
  rcases w.phase run at_ with waiting | ⟨reply?, -, e⟩
  · exact waiting
  · exact absurd e (open_ reply?)

/-- **Success is never claimed for what was not applied**, in every run, and whoever waited is told
what the delivery it waited for was told. -/
theorem truthful_of_run (run : (machine s).Run h st) : Truthful s h st where
  earned := fun split hr => earned_of_run run split hr
  shared := fun split hr w => shared_of_run run split hr w
  tied := fun timers split hl w => tied_of_run run timers split hl w
  told := fun at_ w e => told_of_run run at_ w e
  waiting := fun at_ w open_ => waiting_of_run run at_ w open_
  once := fun e e' => ended_unique run e e'

/-- What was replied to whom, and whether it claims success. -/
def replies (h : History) : List (CallId × Bool) :=
  (h.flatMap Moment.effects).filterMap fun
    | .reply c r => some (c, r.success)
    | _ => none

/-! ### A sample: two deliveries wait for a third, and one of them gives up -/

/-- If a wait is given up at moment `k`, then no delivery in progress was out of time earlier. -/
def isTimely (s : Settings) (due : Nat → Nat) (h : History) (k : Nat) : Bool :=
  match h[k]? with
  | some ⟨call, .expire _, before, _⟩ =>
    before.deliveries.keys.all fun c => due call ≤ due ((machine s).numberOf (h.take k) c)
  | _ => true

theorem getElem?_of_split (split : h = pre ++ m :: post) :
    h[pre.length]? = some m ∧ h.take pre.length = pre := by
  rw [split]
  exact ⟨by simp, List.take_left⟩

theorem split_of_getElem? {k : Nat} (at_ : h[k]? = some m) :
    h = h.take k ++ m :: h.drop (k + 1) := by
  obtain ⟨lt, is⟩ := List.getElem?_eq_some_iff.mp at_
  rw [← is, ← List.drop_eq_getElem_cons lt, List.take_append_drop]

/-- Whoever gives up in time does so at every moment. -/
theorem timers_of_timely {due : Nat → Nat} (later : ∀ {n n'}, n ≤ n' → due n ≤ due n')
    (timely : (List.range h.length).all (isTimely s due h) = true) : Timers s h due where
  later := later
  inOrder := by
    intro pre m post c c' x a split hl at_
    obtain ⟨is, before⟩ := getElem?_of_split split
    have lt : pre.length < h.length := (List.getElem?_eq_some_iff.mp is).1
    have timely := List.all_eq_true.mp timely pre.length (List.mem_range.mpr lt)
    obtain ⟨call, label, state, effects⟩ := m
    obtain rfl : label = .expire c := hl
    simp only [isTimely, is, before, List.all_eq_true, decide_eq_true_eq] at timely
    exact timely c' ((Table.mem_keys_iff _ _).mpr (by rw [at_]; rfl))

namespace Sample

/-- The second delivery of "x" and the two that wait for it are out of time at once. -/
def due (n : Nat) : Nat := if n < 2 then 0 else if n < 5 then 1 else 2

theorem due_mono {n n' : Nat} (h : n ≤ n') : due n ≤ due n' := by
  unfold due
  grind

end Sample

/-- The sample: the call numbered 4 waits for the one numbered 2 and gives up, both being out of
time. -/
theorem truthful_sample : ∃ h st, (machine Sample.settings).play Sample.labels = some (h, st) ∧
    replies h = [(0, false), (1, false), (3, false), (0, true), (2, true), (3, true), (5, false),
      (4, true), (6, true)] ∧
    Truthful Sample.settings h st ∧ Timers Sample.settings h Sample.due ∧
    ∃ m, h = h.take 7 ++ m :: h.drop 8 ∧ m.label = .expire 3 ∧ m.call = 4 ∧
      Waited Sample.settings h m.call 2 ∧ Sample.due m.call = Sample.due 2 := by
  have played : ((machine Sample.settings).play Sample.labels).map (fun r =>
      (replies r.1, (List.range r.1.length).all (isTimely Sample.settings Sample.due r.1))) =
      some ([(0, false), (1, false), (3, false), (0, true), (2, true), (3, true), (5, false),
        (4, true), (6, true)], true) := by
    decide +kernel
  have arrived : (((machine Sample.settings).play Sample.labels).bind fun r =>
      r.1[6]?.map fun m => (m.label, m.call, m.before.window.seen? "x",
        (machine Sample.settings).numberOf (r.1.take 6) 0)) =
      some (.arrive 3 (Sample.invocation "x"), 4, some (.inFlight 0), 2) := by
    decide +kernel
  have expired : (((machine Sample.settings).play Sample.labels).bind fun r =>
      r.1[7]?.map fun m => (m.label, m.call)) = some (.expire 3, 4) := by
    decide +kernel
  obtain ⟨⟨h, st⟩, hr, facts⟩ := Option.map_eq_some_iff.mp played
  obtain ⟨replied, timely⟩ := Prod.mk.inj facts
  rw [hr, Option.bind_some] at arrived expired
  obtain ⟨m₆, at₆, is₆⟩ := Option.map_eq_some_iff.mp arrived
  obtain ⟨m, at₇, is₇⟩ := Option.map_eq_some_iff.mp expired
  simp only [Prod.mk.injEq] at is₆ is₇
  obtain ⟨label₆, call₆, seen, owner⟩ := is₆
  obtain ⟨label, call⟩ := is₇
  have timers : Timers Sample.settings h Sample.due :=
    timers_of_timely Sample.due_mono timely
  have split := split_of_getElem? at₇
  have waited : Waited Sample.settings h m.call 2 :=
    ⟨_, m₆, _, split_of_getElem? at₆, call₆.trans call.symm, 3, Sample.invocation "x", 0, label₆,
      by decide, seen, owner⟩
  have truthful : Truthful Sample.settings h st := truthful_of_run (Machine.run_of_play hr)
  exact ⟨h, st, hr, replied, truthful, timers, m, split, label, call, waited,
    truthful.tied timers split label waited⟩

end ChangeRelay.Reaction
