import ChangeRelay.Proofs.Reaction.Alone
import Mathlib.Data.List.Induction

/-!
# A delivery that fails leaves no trace

A delivery comes to nothing if its invocation does not pass the check, if the pipeline does not take
it, or if its caller gives up. If nothing was known of its id when it came in, then nothing is known
when it fails, and all that is remembered and counted comes from the other deliveries. So the id can
be delivered again, and is then treated like one that was never seen.

* **`traceless_of_run`**: what is said above, in every run.
* **`Opens.fails_or_taken`**: a delivery of an unknown id fails, or it has been applied.
* `settled_of_run`: what is counted is what was applied.
* `unseen_later`: an unknown id stays unknown until it is delivered.
-/

namespace ChangeRelay.Reaction

/-- The steps at which a delivery comes to nothing. -/
inductive Fails (s : Settings) : Label → Prop
  /-- Its invocation does not pass the check. -/
  | refused {c : CallId} {i : Wire.Invocation} {cause : Invalid} (bad : check s i = .error cause) :
      Fails s (.arrive c i)
  /-- The pipeline does not take its invocation, or takes too long. -/
  | faulty (c : CallId) (fault : Pipeline.Fault) : Fails s (.answer c (.failed fault))
  /-- Its caller gives up. -/
  | dropped (c : CallId) : Fails s (.drop c)

/-- The call numbered `n` delivers `i`, and nothing is known of its id when it comes in. -/
def Opens (s : Settings) (h : History) (n : Nat) (i : Wire.Invocation) : Prop :=
  ∃ pre m post c, h = pre ++ m :: post ∧ m.call = n ∧ m.label = .arrive c i ∧
    ¬Known s pre m.before i.id

/-- With the last step of `h` the call numbered `n` fails. -/
def JustFailed (s : Settings) (h : History) (n : Nat) : Prop :=
  ∃ pre m, h = pre ++ [m] ∧ m.call = n ∧ Fails s m.label

/-- What is counted when these invocations are applied. -/
def tally (as : List Invocation) : Counts where
  received := 0
  applied := as.length
  duplicates := 0
  rejected := 0
  added := (as.flatMap fun a => a.payload.added).length
  updated := (as.flatMap fun a => a.payload.updated).length
  deleted := (as.flatMap fun a => a.payload.deleted).length

/-- A delivery of `i` that comes in at `st` as `c` is checked, and what passes is handed to the
pipeline. -/
def Admits (s : Settings) (st : State) (c : CallId) (i : Wire.Invocation) : Prop :=
  ∃ st' es, step s st (.arrive c i) = some (st', es) ∧
    (∀ a, check s i = .ok a → .apply c a ∈ es) ∧
    ∀ cause, check s i = .error cause → .reply c (failedReply i.id cause.message) ∈ es

/-- At `st`, after `h`, there is no trace of the call numbered `n`, which delivered `i`. -/
structure Traceless (s : Settings) (h : History) (st : State) (n : Nat) (i : Wire.Invocation) :
    Prop where
  forgotten : st.window.seen? i.id = none
  /-- What is remembered, and in which order, is what was applied last by others. -/
  remembered : st.window.completed =
    latest (max s.capacity 1) (appliedIds (h.filter fun m => m.call ≠ n))
  /-- What is counted of applied invocations and their records is counted for others. -/
  counted : st.counts.settled = tally (applied (h.filter fun m => m.call ≠ n))
  /-- Without it, and without those that waited for it, the others can do all that they did, and the
  same is known, remembered and counted then. -/
  alone : ∃ h₀ st₀, (machine s).Run h₀ st₀ ∧ h₀.map Moment.label = others s h n ∧
    (∀ x, st₀.window.seen? x = st.window.seen? x) ∧
    st₀.window.completed = st.window.completed ∧ st₀.counts.settled = st.counts.settled
  /-- The next delivery of the id, whenever it comes, is treated like a first one. -/
  again : ∀ {h' st' c i'}, (machine s).Run (h ++ h') st' →
    (∀ m ∈ h', ∀ c' i'', m.label = .arrive c' i'' → i''.id ≠ i.id) →
    st'.deliveries.get? c = none → i'.id = i.id → Admits s st' c i'

variable {s : Settings} {st st' : State} {l : Label} {left : Left} {es : List Effect}
variable {h h' : History} {m : Moment State Label Effect} {n : Nat} {x : String}
variable {i : Wire.Invocation}

/-! ## Counts -/

theorem tally_concat (as : List Invocation) (a : Invocation) :
    tally (as ++ [a]) = (tally as).apply a.payload := by
  simp [tally, Counts.apply]

/-- **What is counted is what was applied.** -/
theorem settled_of_run (run : (machine s).Run h st) : st.counts.settled = tally (applied h) := by
  induction run with
  | start => rfl
  | @next h st st' l es run hs ih =>
    rw [applied_concat]
    rcases step_counts hs with ⟨settled, other⟩ | ⟨x, a, hl, at_, counts⟩
    · have none : applied? (next s h st l es) = none := applied?_none other
      rw [none, Option.toList_none, List.append_nil, settled, ih]
    · have some : applied? (next s h st l es) = some a := applied?_eq_some hl at_
      rw [some, Option.toList_some, tally_concat, ← ih, counts]
      rfl

/-- What others applied is all that was applied, if one call applied nothing. -/
theorem applied_filter (unapplied : ∀ m ∈ h, m.call = n → applied? m = none) :
    applied (h.filter fun m => m.call ≠ n) = applied h := by
  unfold applied
  rw [List.filterMap_filter]
  refine List.filterMap_congr fun m hm => ?_
  by_cases own : m.call = n
  · rw [unapplied m hm own, ite_self]
  · rw [if_pos (decide_eq_true own)]

/-! ## Unknown ids -/

/-- Of an id that is not in flight and not among those applied last nothing is known. -/
theorem unseen_of_not_known (run : (machine s).Run h st) (unknown : ¬Known s h st x) :
    st.window.seen? x = none := by
  have o := orderly_of_run run
  cases seen : st.window.seen? x with
  | none => rfl
  | some known =>
    refine absurd ?_ unknown
    cases known with
    | inFlight owner =>
      obtain ⟨a, at_⟩ := o.owner.mp seen
      exact .inl ⟨owner, a, at_⟩
    | done reply =>
      refine .inr ?_
      rw [← Settings.remembered, ← completed_of_run run]
      exact o.remembered.mpr ⟨reply, seen⟩

/-- An id becomes known by its delivery only. -/
theorem Move.unseen (o : Orderly st) (m : Move s st l left es) (new : st.window.seen? x = none)
    (other : ∀ c i, l = .arrive c i → i.id ≠ x) : left.window.seen? x = none := by
  cases seen : left.window.seen? x with
  | none => rfl
  | some known =>
    cases known with
    | inFlight owner =>
      have mark := (m.marks o x owner).mp seen
      by_cases ho : owner = l.id
      · rw [if_pos ho] at mark
        obtain ⟨a, hd⟩ := mark
        obtain ⟨c, i, hl, id_eq, -⟩ := m.stays hd
        exact absurd id_eq (other c i hl)
      · rw [if_neg ho, new] at mark
        exact absurd mark (by simp)
    | done reply =>
      rcases m.completes o with ⟨-, done, -⟩ | ⟨y, a, -, at_, window⟩
      · exact absurd (new.symm.trans ((done x reply).mp seen)) (by simp)
      · have mark := o.owner.mpr ⟨a, at_⟩
        have ne : x ≠ y := by
          rintro rfl
          exact absurd (new.symm.trans mark) (by simp)
        rw [window, Window.seen?_complete (remembered_pos s) o.nodup (o.not_completed mark),
          if_neg ne, new, ite_self] at seen
        exact absurd seen (by simp)

/-- **An unknown id stays unknown until it is delivered.** -/
theorem unseen_later (run : (machine s).Run h st) (new : st.window.seen? x = none)
    (run' : (machine s).Run (h ++ h') st')
    (other : ∀ m ∈ h', ∀ c i, m.label = .arrive c i → i.id ≠ x) :
    st'.window.seen? x = none := by
  induction h' using List.reverseRecOn generalizing st' with
  | nil =>
    rw [List.append_nil] at run'
    rw [← run.unique run']
    exact new
  | append_singleton h' m ih =>
    rw [← List.append_assoc] at run'
    obtain ⟨st₁, l, es, run₁, hs, rfl⟩ := run'.last
    obtain ⟨left, move, after⟩ := step_move hs
    rw [after.window]
    refine move.unseen (orderly_of_run run₁) ?_ ?_
    · exact ih run₁ fun m hm => other m (List.mem_append_left _ hm)
    · exact other _ (List.mem_append_right _ (List.mem_singleton_self _))

theorem check_unnamed (hi : i.id = "") : check s i = .error .emptyInvocationId := by
  simp only [check, Wire.Invocation.check, if_pos hi]

/-- An unknown id is checked when it is delivered, and handed to the pipeline. -/
theorem admits_of_unseen {c : CallId} (free : st.deliveries.get? c = none)
    (new : st.window.seen? i.id = none) : Admits s st c i := by
  by_cases unnamed : i.id = ""
  · have bad := check_unnamed (s := s) unnamed
    obtain ⟨st', hs, -⟩ := (Move.unnamed (s := s) free unnamed).step
    refine ⟨st', _, hs, fun a good => absurd (bad.symm.trans good) (by simp), fun cause bad' => ?_⟩
    obtain rfl := Except.error.inj (bad.symm.trans bad')
    simp
  · cases checked : check s i with
    | error cause =>
      obtain ⟨st', hs, -⟩ := (Move.refuse free unnamed new checked).step
      refine ⟨st', _, hs, fun a good => absurd (checked.symm.trans good) (by simp), ?_⟩
      intro cause' bad'
      obtain rfl := Except.error.inj (checked.symm.trans bad')
      simp
    | ok a =>
      obtain ⟨st', hs, -⟩ := (Move.apply free unnamed new checked).step
      refine ⟨st', _, hs, ?_, fun cause bad => absurd (checked.symm.trans bad) (by simp)⟩
      intro a' good'
      obtain rfl := Except.ok.inj (checked.symm.trans good')
      simp

/-! ## The delivery that fails -/

namespace Opens

/-- The moment of the arrival is the only one. -/
theorem arrival_eq {pre post : History} {c : CallId} {i' : Wire.Invocation} (op : Opens s h n i)
    (run : (machine s).Run h st) (split : h = pre ++ m :: post) (call : m.call = n)
    (hl : m.label = .arrive c i') : i' = i ∧ m.before.window.seen? i.id = none := by
  obtain ⟨pre', m', post', c', split', call', hl', unknown⟩ := op
  have arrives : ((machine s).request? m.label).isSome = true := by rw [hl]; rfl
  have arrives' : ((machine s).request? m'.label).isSome = true := by rw [hl']; rfl
  obtain ⟨rfl, rfl⟩ := run.arrival_unique split split' arrives arrives' (call.trans call'.symm)
  obtain ⟨-, rfl⟩ := Label.arrive.inj (hl.symm.trans hl')
  exact ⟨rfl, unseen_of_not_known (Machine.Run.before (split ▸ run)).1 unknown⟩

theorem not_waited (op : Opens s h n i) (run : (machine s).Run h st) (o : Nat) :
    ¬Waited s h n o := by
  rintro ⟨pre, m, post, split, call, c, i', owner, hl, -, seen, -⟩
  obtain ⟨rfl, new⟩ := op.arrival_eq run split call hl
  exact absurd (new.symm.trans seen) (by simp)

theorem arrivals (op : Opens s h n i) (run : (machine s).Run h st) :
    ∃ c, ((machine s).arrivals h)[n]? = some (c, i) := by
  obtain ⟨pre, m, post, c, rfl, rfl, hl, -⟩ := op
  obtain ⟨-, hm, -⟩ := Machine.Run.before run
  have hr : (machine s).request? m.label = some i := by rw [hl]; rfl
  have new : ((machine s).arrivals (pre ++ [m]))[m.call]? = some ((machine s).name m.label, i) := by
    rw [hm]
    exact Machine.arrivals_next (M := machine s) hr
  refine ⟨(machine s).name m.label, ?_⟩
  rw [← List.singleton_append, ← List.append_assoc]
  exact Machine.arrivals_mono _ _ new

/-- As long as it is in progress its invocation is being applied: it waits for no other. -/
theorem applying {pre post : History} {d : Delivery} (op : Opens s h n i)
    (run : (machine s).Run h st) (split : h = pre ++ m :: post) (call : m.call = n)
    (at_ : m.before.deliveries.get? m.label.id = some d) : ∃ a, d.phase = .applying a := by
  obtain ⟨run', hm, st₁, hs⟩ := Machine.Run.before (split ▸ run)
  have t := traced_of_run run'
  have number : (machine s).numberOf pre m.label.id = n := by
    rw [← call, hm]
    exact (callOf_old hs at_).symm
  have not_waited : ∀ o, ¬Waited s pre ((machine s).numberOf pre m.label.id) o := by
    intro o w
    rw [number] at w
    exact op.not_waited run o (split ▸ w.append _)
  obtain ⟨y, phase⟩ := d
  cases phase with
  | applying a => exact ⟨a, rfl⟩
  | awaiting owner => exact absurd (t.awaiting at_) (not_waited _)
  | released reply? =>
    obtain ⟨⟨o, w, -⟩, -⟩ := t.released at_
    exact absurd w (not_waited o)

/-- **It fails, or it has been applied**: there are no other ways in which it ends. -/
theorem fails_or_taken {reply? : Option InvocationReply} (op : Opens s h n i)
    (run : (machine s).Run h st) (hm : m ∈ h) (call : m.call = n)
    (ends : Ends m.label m.effects reply?) :
    Fails s m.label ∨ ∃ c, m.label = .answer c .taken := by
  obtain ⟨pre, post, split⟩ := List.append_of_mem hm
  obtain ⟨-, -, st₁, hs⟩ := Machine.Run.before (split ▸ run)
  have new := fun c i' (hl : m.label = .arrive c i') => op.arrival_eq run split call hl
  have applying := fun d => op.applying (d := d) run split call
  obtain ⟨left, move, -⟩ := step_move hs
  have done := move.ends ends
  obtain ⟨k, l, st₀, es⟩ := m
  dsimp only at *
  cases move with
  | unnamed _ unnamed => exact .inl (.refused (check_unnamed unnamed))
  | again _ _ seen =>
    obtain ⟨rfl, new⟩ := new _ _ rfl
    exact absurd (new.symm.trans seen) (by simp)
  | await _ _ _ => exact absurd done (by simp)
  | refuse _ _ _ bad => exact .inl (.refused bad)
  | apply _ _ _ _ => exact absurd done (by simp)
  | fail fault _ => exact .inl (.faulty _ fault)
  | complete _ => exact .inr ⟨_, rfl⟩
  | resume at_ =>
    obtain ⟨a, phase⟩ := applying _ at_
    exact absurd phase (by simp)
  | expire at_ =>
    obtain ⟨a, phase⟩ := applying _ at_
    exact absurd phase (by simp)
  | interrupt _ => exact .inl (.dropped _)
  | leave _ _ => exact .inl (.dropped _)

end Opens

/-- A step at which a delivery fails is its last. -/
theorem Fails.ends (fails : Fails s l) (m : Move s st l left es)
    (new : ∀ c i, l = .arrive c i → st.window.seen? i.id = none) :
    ∃ reply?, Ends l es reply? := by
  cases fails with
  | dropped c => exact ⟨none, c, rfl⟩
  | faulty c fault =>
    cases m with
    | fail _ at_ => exact ⟨_, (Move.fail (s := s) fault at_).release_ends rfl⟩
  | @refused c i cause bad =>
    have new := new c i rfl
    cases m with
    | unnamed _ _ => exact ⟨some _, c, List.mem_cons_of_mem _ (List.mem_singleton_self _)⟩
    | again _ _ seen => exact absurd (new.symm.trans seen) (by simp)
    | await _ _ seen => exact absurd (new.symm.trans seen) (by simp)
    | refuse free named new bad => exact ⟨_, (Move.refuse free named new bad).release_ends rfl⟩
    | apply _ _ _ good => exact absurd (bad.symm.trans good) (by simp)

theorem Move.taken_ends (m : Move s st l left es) {c : CallId} (hl : l = .answer c .taken) :
    ∃ reply?, Ends l es reply? := by
  cases m with
  | complete at_ => exact ⟨_, (Move.complete (s := s) at_).release_ends rfl⟩
  | _ => exact absurd hl (by simp)

section Failed

variable (run : (machine s).Run h st) (op : Opens s h n i) (failed : JustFailed s h n)

include run op failed

theorem JustFailed.ended : ∃ m ∈ h, m.call = n ∧ Fails s m.label ∧
    ∃ reply?, Ends m.label m.effects reply? := by
  obtain ⟨pre, m, rfl, call, fails⟩ := failed
  obtain ⟨st₁, l, es, run₁, hs, rfl⟩ := run.last
  obtain ⟨left, move, -⟩ := step_move hs
  refine ⟨_, by simp, call, fails, fails.ends move fun c i' hl => ?_⟩
  obtain ⟨rfl, new⟩ := op.arrival_eq run rfl call hl
  exact new

/-- A delivery that fails has not been applied. -/
theorem JustFailed.unapplied (m : Moment State Label Effect) (hm : m ∈ h) (call : m.call = n)
    (c : CallId) : m.label ≠ .answer c .taken := by
  intro hl
  obtain ⟨m', hm', call', fails, ends'⟩ := failed.ended run op
  obtain ⟨pre, post, split⟩ := List.append_of_mem hm
  obtain ⟨-, -, st₁, hs⟩ := Machine.Run.before (split ▸ run)
  obtain ⟨left, move, -⟩ := step_move hs
  obtain rfl := run.end_unique last_ends hm hm' (call.trans call'.symm) (move.taken_ends hl) ends'
  rw [hl] at fails
  cases fails

/-- A delivery in progress is another one. -/
theorem JustFailed.other (c : CallId) (d : Delivery) (hd : st.deliveries.get? c = some d) :
    (machine s).numberOf h c ≠ n := by
  rintro rfl
  obtain ⟨m, hm, call, -, reply?, ends⟩ := failed.ended run op
  exact not_ended run hd reply? ⟨m, hm, call, ends⟩

/-- **Nothing is known of the id when its delivery has failed.** -/
theorem JustFailed.forgotten : st.window.seen? i.id = none := by
  obtain ⟨pre, m, rfl, call, fails⟩ := failed
  obtain ⟨st₁, l, es, run₁, hs, rfl⟩ := run.last
  obtain ⟨left, move, after⟩ := step_move hs
  have o := orderly_of_run run₁
  have t := traced_of_run run₁
  rw [after.window]
  -- Where the delivery has the mark of its id, it is the mark that is taken back.
  have unmarked : ∀ {y a}, st₁.deliveries.get? l.id = some ⟨y, .applying a⟩ →
      (st₁.window.abandon y).seen? i.id = none := by
    intro y a at_
    obtain ⟨i', hi', -, old⟩ := t.request hs
    obtain ⟨c, hi⟩ := op.arrivals run
    rw [← call] at hi
    have same : (l.id, i') = (c, i) := Option.some.inj (hi'.symm.trans hi)
    have named : y = i'.id := old _ at_
    obtain rfl : y = i.id := by rw [named, (Prod.mk.inj same).2]
    rw [Window.seen?_abandon (o.owner.mpr ⟨a, at_⟩), if_pos rfl]
  cases fails with
  | @refused c i' cause bad =>
    obtain ⟨rfl, new⟩ := op.arrival_eq run rfl call rfl
    cases move with
    | unnamed _ _ => exact new
    | again _ _ _ => exact new
    | await _ _ _ => exact new
    | refuse _ _ _ _ => exact (seen?_begin_abandon new _ _).trans new
    | apply _ _ _ good => exact absurd (bad.symm.trans good) (by simp)
  | faulty c fault =>
    cases move with
    | fail _ at_ =>
      rw [o.id_eq at_]
      exact unmarked at_
  | dropped c =>
    cases move with
    | interrupt at_ => exact unmarked at_
    | leave at_ idle =>
      obtain ⟨a, phase⟩ := op.applying run rfl call at_
      exact absurd phase (idle a)

end Failed

/-- **A delivery that fails leaves no trace**, if nothing was known of its id when it came in. -/
theorem traceless_of_run (run : (machine s).Run h st) (op : Opens s h n i)
    (failed : JustFailed s h n) : Traceless s h st n i := by
  have unapplied := failed.unapplied run op
  have all : applied (h.filter fun m => m.call ≠ n) = applied h :=
    applied_filter fun m hm call => applied?_none (unapplied m hm call)
  constructor
  case forgotten => exact failed.forgotten run op
  case remembered => rw [completed_of_run run, appliedIds, appliedIds, all]; rfl
  case counted => rw [settled_of_run run, all]
  case alone =>
    obtain ⟨h₀, st₀, run₀, labels, al⟩ := others_of_run run unapplied
    have same := al.seen? run (orderly_of_run run₀) (failed.other run op)
    exact ⟨h₀, st₀, run₀, labels, same, al.completed, al.settled⟩
  case again =>
    intro h' st' c i' run' other free same
    refine admits_of_unseen free ?_
    rw [same]
    exact unseen_later run (failed.forgotten run op) run' other

/-- The delivery of "y" in the sample that is dropped, with another one waiting for it. -/
theorem traceless_sample : ∃ h st,
    (machine Sample.settings).play (Sample.labels.take 14) = some (h, st) ∧
    Opens Sample.settings h 6 (Sample.invocation "y") ∧ JustFailed Sample.settings h 6 ∧
    Traceless Sample.settings h st 6 (Sample.invocation "y") := by
  have played : ((machine Sample.settings).play (Sample.labels.take 14)).map (fun r =>
      (r.1[11]?.map fun m => (m.call, m.label, m.before.window.seen? "y"),
        r.1.getLast?.map fun m => (m.call, m.label))) =
      some (some (6, .arrive 4 (Sample.invocation "y"), none), some (6, .drop 4)) := by
    decide +kernel
  obtain ⟨⟨h, st⟩, hr, facts⟩ := Option.map_eq_some_iff.mp played
  obtain ⟨first, last⟩ := Prod.mk.inj facts
  have run := Machine.run_of_play hr
  have op : Opens Sample.settings h 6 (Sample.invocation "y") := by
    obtain ⟨m, hm, eq⟩ := Option.map_eq_some_iff.mp first
    obtain ⟨call, eq⟩ := Prod.mk.inj eq
    obtain ⟨label, new⟩ := Prod.mk.inj eq
    obtain ⟨pre, post, split⟩ : ∃ pre post, h = pre ++ m :: post :=
      List.append_of_mem (List.mem_of_getElem? hm)
    refine ⟨pre, m, post, 4, split, call, label, fun known => ?_⟩
    exact known.seen (Machine.Run.before (split ▸ run)).1 new
  have failed : JustFailed Sample.settings h 6 := by
    obtain ⟨m, hm, eq⟩ := Option.map_eq_some_iff.mp last
    obtain ⟨call, label⟩ := Prod.mk.inj eq
    obtain ⟨pre, split⟩ := List.getLast?_eq_some_iff.mp hm
    exact ⟨pre, m, split, call, label ▸ .dropped 4⟩
  exact ⟨h, st, hr, op, failed, traceless_of_run run op failed⟩

end ChangeRelay.Reaction
