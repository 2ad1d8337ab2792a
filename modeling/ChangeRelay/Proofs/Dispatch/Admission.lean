import ChangeRelay.Proofs.Dispatch.Accounts
import ChangeRelay.Proofs.Dispatch.Outcome
import Mathlib.Data.List.Infix

/-!
# Which sources have a stream

A source gets a stream when a call looks for it, as long as there are fewer streams than the limit,
and keeps it. So the sources with a stream are the ones that were looked for first, whatever becomes
of the calls, and a call for another one is refused with all its events. This is `stream` of
`DispatcherCore` under its `max_source_streams`.

* **`Move.admits`**: what a step does to the list of sources.
* **`tracked_of_run`**: the sources with a stream are the first ones that were looked for.
* **`barred_of_run`**: what becomes of a call for which there is no room.
* `admitted_of_run`: no call on a source with a stream is told that there is none.
* **`admits_of_run`**: all that is known of the admission of sources.
-/

namespace ChangeRelay.Dispatch

/-- The source whose stream a call looks for at a moment. -/
def asked? (m : Moment State Label Effect) : Option String :=
  match m.label with
  | .lookup id => (m.before.calls.get? id).map fun call => call.walk.source
  | _ => none

/-- The sources that were looked for, in order. -/
def asked (h : History) : List String := h.filterMap asked?

/-- The sources with a stream after one more was looked for, of which at most `n` get one. -/
def enroll (n : Nat) (sources : List String) (x : String) : List String :=
  if x ∈ sources ∨ n ≤ sources.length then sources else sources ++ [x]

/-- A call with events, on a source that it names or on the default one, looks for the stream of `x`
at the moment `m`. -/
structure Asks (s : Settings) (h : History) (m : Moment State Label Effect) (x : String)
    (id : CallId) (r : Request) : Prop where
  label : m.label = .lookup id
  arrival : ((machine s).arrivals h)[m.call]? = some (id, r)
  source : r.source s = x
  some : r.events ≠ []
  named : r.lacksSource = false

/-- What is logged when there is no room for the source of a request. -/
def barLine (s : Settings) (r : Request) : Log.Line :=
  ⟨.warn, "batch rejected",
    [("source_id", r.source s), ("events", decimal r.events.length),
      ("err", (Invalid.sourceLimit (r.source s) s.maxStreams).message)]⟩

/-- The call that takes the step at `m` is refused with all the events of its request `r`. -/
structure Barred (s : Settings) (h : History) (m : Moment State Label Effect) (id : CallId)
    (r : Request) : Prop where
  labels : Moment.labelsOf h m.call = [.arrive id r, .lookup id]
  /-- It is told that there is no room and that no event was processed. -/
  effects : Moment.effectsOf h m.call =
    arrivalLines r ++ [.log (barLine s r),
      .reply id ⟨false, (Invalid.sourceLimit (r.source s) s.maxStreams).message, 0⟩]
  forwarded : offersOf h m.call = [] ∧ takenOf h m.call = []
  rejected : rejectedOf h m.call = r.events.length
  /-- None of its steps changes a stream. -/
  kept : ∀ m' ∈ h, m'.call = m.call → ∀ st' es, step s m'.before m'.label = some (st', es) →
    st'.streams = m'.before.streams
  counts : ∀ st' es, step s m.before m.label = some (st', es) →
    st'.counts = m.before.counts.reject r.events.length

/-- What there is to be said of the admission of sources in a history. -/
structure Admits (s : Settings) (h : History) (st : State) : Prop where
  /-- First come, first served. -/
  tracked : st.streams.keys = (asked h).eraseDups.take s.maxStreams
  bounded : st.streams.size ≤ s.maxStreams
  asks : ∀ {m x}, m ∈ h → asked? m = some x → ∃ id r, Asks s h m x id r
  /-- A stream that was opened is there for good. -/
  kept : ∀ {pre m post}, h = pre ++ m :: post → m.before.streams.keys <+: st.streams.keys
  /-- A call on a source with a stream is never told that there is no room. -/
  admitted : ∀ {n id r}, ((machine s).arrivals h)[n]? = some (id, r) →
    r.source s ∈ st.streams.keys → ∀ id' y k,
      Effect.reply id' (refusal (.sourceLimit y k)) ∉ Moment.effectsOf h n
  /-- A call can look for its stream at any time. -/
  looks : ∀ {id call}, st.calls.get? id = some call → call.phase = .arrived →
    (step s st (.lookup id)).isSome = true
  /-- When the limit is reached, a call that looks for another source is refused. -/
  barred : ∀ {m x}, m ∈ h → asked? m = some x → x ∉ m.before.streams.keys →
    s.maxStreams ≤ m.before.streams.size → ∃ id r, Asks s h m x id r ∧ Barred s h m id r

variable {s : Settings} {st st' : State} {l : Label} {left : Left} {es : List Effect}
variable {h : History} {m : Moment State Label Effect} {x : String} {id : CallId} {r : Request}

/-! ## First come, first served -/

/-- The first `n` sources of a list to which one more is added. -/
theorem take_eraseDups_concat (n : Nat) (xs : List String) (x : String) :
    (xs ++ [x]).eraseDups.take n = enroll n (xs.eraseDups.take n) x := by
  unfold enroll
  rw [List.eraseDups_append]
  by_cases hx : x ∈ xs
  · have old : [x].removeAll xs = [] := by simp [List.removeAll, hx]
    rw [old, List.eraseDups_nil, List.append_nil, if_pos]
    rw [or_iff_not_imp_right, List.length_take]
    intro few
    rw [List.take_of_length_le (by omega)]
    exact List.mem_eraseDups.mpr hx
  · have new : [x].removeAll xs = [x] := by simp [List.removeAll, hx]
    have one : [x].eraseDups = [x] := rfl
    have out : x ∉ xs.eraseDups.take n := fun mem =>
      hx (List.mem_eraseDups.mp (List.mem_of_mem_take mem))
    rw [new, one, List.length_take]
    by_cases full : n ≤ xs.eraseDups.length
    · rw [if_pos (.inr (by omega)), List.take_append_of_le_length full]
    · rw [if_neg (by rw [not_or]; exact ⟨out, by omega⟩), List.take_of_length_le (by simp; omega),
        List.take_of_length_le (by omega)]

/-- Only a call that looks for its stream asks for a source. -/
theorem label_of_asked (asks : asked? m = some x) : ∃ id, m.label = .lookup id := by
  unfold asked? at asks
  split at asks
  · next id label => exact ⟨id, label⟩
  · cases asks

theorem asked?_eq_none (hl : ∀ id, m.label ≠ .lookup id) : asked? m = none := by
  refine Option.eq_none_iff_forall_ne_some.mpr fun x asks => ?_
  obtain ⟨id, label⟩ := label_of_asked asks
  exact hl id label

theorem asked?_lookup {call : Call} (at_ : st.calls.get? id = some call) (n : Nat)
    (es : List Effect) : asked? ⟨n, .lookup id, st, es⟩ = some call.walk.source := by
  simp [asked?, at_]

/-- Where no stream is opened the sources with a stream stay. -/
theorem After.keys_old (after : After st id left st')
    (old : left.stream?.isSome = true → (st.streams.get? left.source).isSome = true) :
    st'.streams.keys = st.streams.keys :=
  after.keys.trans (After.keys_of_old rfl old).symm

/-- **What a step does to the sources with a stream**: one is admitted that was looked for. -/
theorem Move.admits (move : Move s st l left es) (after : After st l.id left st') (n : Nat) :
    st'.streams.keys =
      (asked? ⟨n, l, st, es⟩).elim st.streams.keys (enroll s.maxStreams st.streams.keys) := by
  have aside (hl : ∀ id, l ≠ .lookup id)
      (old : left.stream?.isSome = true → (st.streams.get? left.source).isSome = true) :
      st'.streams.keys =
        (asked? ⟨n, l, st, es⟩).elim st.streams.keys (enroll s.maxStreams st.streams.keys) := by
    rw [asked?_eq_none hl]
    exact after.keys_old old
  cases move with
  | empty _ _ => exact aside (by simp) id
  | sourceless _ _ _ => exact aside (by simp) id
  | arrive _ _ _ => exact aside (by simp) id
  | join _ _ => exact aside (by simp) (by simp)
  | drop _ => exact aside (by simp) (by simp)
  | work _ works => exact aside (by cases works <;> simp) (by simp)
  | @find id call at_ _ room =>
    rw [asked?_lookup at_, after.keys]
    by_cases old : call.walk.source ∈ st.streams.keys
    · simp [enroll, old]
    · have size := room old
      rw [size_eq] at size
      simp [enroll, old, size]
  | @refuse id call at_ _ new full =>
    rw [asked?_lookup at_, after.keys]
    rw [size_eq] at full
    simp [enroll, full]

theorem asked_concat (h : History) (m : Moment State Label Effect) :
    asked (h ++ [m]) = asked h ++ (asked? m).toList := by
  unfold asked
  rw [List.filterMap_append]
  cases hm : asked? m <;> simp [hm]

/-- **First come, first served.** The sources with a stream are the first that were looked for. -/
theorem tracked_of_run (run : (machine s).Run h st) :
    st.streams.keys = (asked h).eraseDups.take s.maxStreams := by
  induction run with
  | start => exact List.take_nil.symm
  | @next h st st' l es run hs ih =>
    obtain ⟨left, move, after⟩ := step_move hs
    rw [move.admits after ((machine s).callOf h l), asked_concat, Machine.moment]
    cases asked? ⟨(machine s).callOf h l, l, st, es⟩ with
    | none => rw [Option.toList_none, List.append_nil, Option.elim_none, ih]
    | some x => rw [Option.toList_some, take_eraseDups_concat, Option.elim_some, ih]

/-- **A stream that was opened is there for good.** -/
theorem kept_of_run {h' : History} (run : (machine s).Run h st) (run' : (machine s).Run h' st')
    (later : h <+: h') : st.streams.keys <+: st'.streams.keys := by
  obtain ⟨rest, rfl⟩ := later
  rw [tracked_of_run run, tracked_of_run run', asked, asked, List.filterMap_append,
    List.eraseDups_append]
  exact List.IsPrefix.take (List.prefix_append _ _) _

/-! ## Calls that look for their streams -/

/-- A call has events and is named when it looks for its stream, and has done nothing else. -/
theorem asks_next (run : (machine s).Run h st) (hs : step s st (.lookup id) = some (st', es)) :
    ∃ call r, st.calls.get? id = some call ∧ call.phase = .arrived ∧ Follows s h id call r ∧
      Waits s h id call r := by
  obtain ⟨left, move, -⟩ := step_move hs
  obtain ⟨call, at_, phase⟩ : ∃ call, st.calls.get? id = some call ∧ call.phase = .arrived := by
    cases move with
    | find at_ phase _ => exact ⟨_, at_, phase⟩
    | refuse at_ phase _ _ => exact ⟨_, at_, phase⟩
    | work _ works => cases works
  obtain ⟨r, f⟩ := follows_of_run run at_
  obtain ⟨r', w⟩ := waits_of_run run at_ (by simp [phase])
  obtain rfl : r' = r := congrArg Prod.snd (Option.some.inj (w.arrival.symm.trans f.arrival))
  exact ⟨call, r', at_, phase, f, w⟩

/-- Who looks for a stream. -/
theorem asks_of_run (run : (machine s).Run h st) (hm : m ∈ h) (asks : asked? m = some x) :
    ∃ id r, Asks s h m x id r := by
  obtain ⟨id, label⟩ := label_of_asked asks
  obtain ⟨pre, post, rfl⟩ := List.append_of_mem hm
  obtain ⟨run, moment, st', hs⟩ := run.before
  rw [label] at hs
  obtain ⟨call, r, at_, -, f, -⟩ := asks_next run hs
  have number : m.call = (machine s).numberOf pre id := by
    rw [moment, label]
    exact callOf_old (show step s m.before (.lookup id) = _ from hs) at_
  have source : call.walk.source = x := by
    rw [asked?, label] at asks
    simpa [at_] using asks
  refine ⟨id, r, label, ?_, f.source.symm.trans source, f.some, f.named⟩
  rw [number]
  exact Machine.arrivals_mono _ _ f.arrival

/-! ## Calls for which there is no room -/

/-- What was said of a call that is over stays so. -/
theorem Barred.concat (barred : Barred s h m id r) {m' : Moment State Label Effect}
    (other : m'.call ≠ m.call) : Barred s (h ++ [m']) m id r where
  labels := by rw [Moment.labelsOf_concat, if_neg other, List.append_nil, barred.labels]
  effects := by rw [Moment.effectsOf_concat, if_neg other, List.append_nil, barred.effects]
  forwarded := by
    rw [offersOf_other other, takenOf_other other]
    exact barred.forwarded
  rejected := by rw [rejectedOf_other other, barred.rejected]
  kept m'' hm'' same := by
    rw [List.mem_append, List.mem_singleton] at hm''
    rcases hm'' with hm'' | rfl
    · exact barred.kept m'' hm'' same
    · exact absurd same other
  counts := barred.counts

/-- Who changes no stream opens none. -/
theorem Keeps.streams (keeps : Keeps s m) (hs : step s m.before m.label = some (st', es)) :
    st'.streams = m.before.streams := by
  refine Table.ext_get? ?_ fun x => keeps st' es hs x
  obtain ⟨left, -, after⟩ := step_move hs
  refine after.keys_old fun opened => ?_
  rw [← keeps st' es hs, after.streams, if_pos rfl]
  exact opened

/-- A call finds no room when it looks for its stream. -/
theorem barred_lookup {call : Call} (run : (machine s).Run h st)
    (hs : step s st (.lookup id) = some (st', es)) (at_ : st.calls.get? id = some call)
    (phase : call.phase = .arrived) (f : Follows s h id call r) (w : Waits s h id call r)
    (none : st.streams.get? call.walk.source = none) (full : s.maxStreams ≤ st.streams.size) :
    Barred s (h ++ [next s h st (.lookup id) es]) (next s h st (.lookup id) es) id r := by
  have own : (next s h st (.lookup id) es).call = (machine s).numberOf h id := callOf_old hs at_
  have total : call.walk.tally.total = r.events.length := f.along.total
  obtain ⟨left, move, -⟩ := step_move hs
  obtain ⟨-, told⟩ := move.unique (.refuse at_ phase none full)
  have tallied := (Entry.refuse run at_ phase (going_of_run run at_) (by decide) told hs).tallied
  have told : es = [.log (barLine s r),
      .reply id (refusal (.sourceLimit (r.source s) s.maxStreams))] := by
    rw [told, f.source, total]
    rfl
  have effects : Moment.effectsOf (h ++ [next s h st (.lookup id) es]) ((machine s).numberOf h id) =
      arrivalLines r ++ [.log (barLine s r),
        .reply id (refusal (.sourceLimit (r.source s) s.maxStreams))] := by
    rw [← w.effects, ← told]
    exact effectsOf_old (l := .lookup id) hs at_
  constructor
  case labels =>
    have arrived := w.labels
    rw [phase] at arrived
    rw [own]
    exact (labelsOf_old (l := .lookup id) hs at_).trans (congrArg (· ++ [_]) arrived)
  case effects =>
    rw [own]
    exact effects
  case forwarded =>
    refine ⟨?_, List.length_eq_zero_iff.mp tallied.taken⟩
    rw [own, offersOf, effects, List.filterMap_append]
    cases r <;> rfl
  case rejected => exact tallied.rejected.trans total
  case kept =>
    intro m' hm' same st'' es' hs'
    have refused : Refused (next s h st (.lookup id) es) :=
      ⟨⟨id, rfl⟩, id, _, by rw [told]; exact .tail _ (.head _)⟩
    have run' : (machine s).Run (h ++ [next s h st (.lookup id) es]) st' := run.next hs
    exact (keeps_of_run run' (List.mem_append_right _ (.head _)) refused hm' same).streams hs'
  case counts =>
    intro st'' es' hs'
    rw [← total]
    exact refuse_counts at_ none full hs'

/-- A call that finds no room when it takes the next step. -/
theorem barred_next (run : (machine s).Run h st) (hs : step s st l = some (st', es))
    (asks : asked? (next s h st l es) = some x) (new : x ∉ st.streams.keys)
    (full : s.maxStreams ≤ st.streams.size) :
    ∃ id r, Asks s (h ++ [next s h st l es]) (next s h st l es) x id r ∧
      Barred s (h ++ [next s h st l es]) (next s h st l es) id r := by
  obtain ⟨id, r, asker⟩ := asks_of_run (run.next hs) (List.mem_append_right _ (.head _)) asks
  obtain rfl : l = .lookup id := asker.label
  obtain ⟨call, r', at_, phase, f, w⟩ := asks_next run hs
  have own : (next s h st (.lookup id) es).call = (machine s).numberOf h id := callOf_old hs at_
  obtain rfl : r' = r := by
    have arrival := asker.arrival
    rw [own, Machine.arrivals_mono _ _ f.arrival] at arrival
    exact congrArg Prod.snd (Option.some.inj arrival)
  have none : st.streams.get? call.walk.source = none := by
    rw [f.source, asker.source, ← Option.not_isSome_iff_eq_none, ← Table.mem_keys_iff]
    exact new
  exact ⟨id, r', asker, barred_lookup run hs at_ phase f w none full⟩

/-- **What becomes of a call for which there is no room**, also later. -/
theorem barred_of_run (run : (machine s).Run h st) (hm : m ∈ h) (asks : asked? m = some x)
    (new : x ∉ m.before.streams.keys) (full : s.maxStreams ≤ m.before.streams.size) :
    ∃ id r, Asks s h m x id r ∧ Barred s h m id r := by
  induction run with
  | start => exact absurd hm List.not_mem_nil
  | @next h st st' l es run hs ih =>
    rw [List.mem_append, List.mem_singleton] at hm
    rcases hm with hm | rfl
    · obtain ⟨id, r, asker, barred⟩ := ih hm
      refine ⟨id, r, ?_, barred.concat fun same => ?_⟩
      · exact ⟨asker.label, Machine.arrivals_mono _ _ asker.arrival, asker.source, asker.some,
          asker.named⟩
      · -- The call has been answered, so it takes no further step.
        have told : ∃ reply, Effect.reply id reply ∈ Moment.effectsOf h m.call := by
          rw [barred.effects]
          exact ⟨_, List.mem_append_right _ (.tail _ (.head _))⟩
        obtain ⟨reply, told⟩ := told
        obtain ⟨m', hm', same', told⟩ := Moment.mem_effectsOf.mp told
        exact run.nothing_after last_reply hs hm' ⟨id, reply, told⟩ (same'.trans same.symm)
    · exact barred_next run hs asks new full

/-! ## Calls for which there is room -/

theorem head_limit (y : String) (k : Nat) :
    (Invalid.sourceLimit y k).message.toList.head? = some 's' := by
  have text : (Invalid.sourceLimit y k).message = "source stream limit of " ++ decimal k ++
      " reached; source " ++ Text.quote y ++ " not accepted" := rfl
  have first : "source stream limit of ".toList.head? = some 's' := by simp
  rw [text]
  simp only [String.toList_append, List.head?_append, first, Option.some_or]

/-- A call that had its turn is told something else than that there is no room. -/
theorem Tells.ne_refusal {total : Nat} {row : List Fate} {reply : DispatchReply}
    (tells : Tells total row reply) (y : String) (k : Nat) :
    reply ≠ refusal (.sourceLimit y k) := by
  rintro rfl
  obtain ⟨left, -, message⟩ := tells.message
  have limit := head_limit y k
  have first : "processed ".toList.head? = some 'p' := by simp
  rw [show (Invalid.sourceLimit y k).message = _ from message] at limit
  simp only [String.toList_append, List.head?_append, first, Option.some_or] at limit
  exact absurd limit (by simp)

/-- **A call that is told that there is no room** was refused. -/
theorem full_of_told (run : (machine s).Run h st) (hm : m ∈ h) {id : CallId} {y : String} {k : Nat}
    (told : .reply id (refusal (.sourceLimit y k)) ∈ m.effects) :
    ∃ r, ((machine s).arrivals h)[m.call]? = some (id, r) ∧
      s.maxStreams ≤ m.before.streams.size ∧ r.source s ∉ m.before.streams.keys := by
  obtain ⟨r, arrival, away | ⟨last?, outcome⟩⟩ := answers_of_run run m hm id _ told
  · refine ⟨r, arrival, ?_⟩
    generalize refused : refusal (.sourceLimit y k) = reply at away
    cases away with
    | empty none => exact absurd (congrArg DispatchReply.success refused) Bool.false_ne_true
    | sourceless lacks =>
      have limit := head_limit y k
      have text : (Invalid.sourceLimit y k).message = "batch source_id is empty" :=
        congrArg DispatchReply.message refused
      rw [text] at limit
      exact absurd limit (by simp)
    | full _ full new => exact ⟨full, not_mem_keys new⟩
  · exact absurd rfl (outcome.reply.ne_refusal y k)

/-- **No call on a source with a stream** is told that there is no room. -/
theorem admitted_of_run (run : (machine s).Run h st) {n : Nat}
    (arrival : ((machine s).arrivals h)[n]? = some (id, r)) (known : r.source s ∈ st.streams.keys)
    (id' : CallId) (y : String) (k : Nat) :
    Effect.reply id' (refusal (.sourceLimit y k)) ∉ Moment.effectsOf h n := by
  intro told
  obtain ⟨m, hm, rfl, reply⟩ := Moment.mem_effectsOf.mp told
  obtain ⟨r', arrival', full, new⟩ := full_of_told run hm reply
  obtain rfl : r' = r := congrArg Prod.snd (Option.some.inj (arrival'.symm.trans arrival))
  obtain ⟨pre, post, rfl⟩ := List.append_of_mem hm
  have kept := kept_of_run run.before.1 run (List.prefix_append _ _)
  -- The limit was reached, so no source has come to those with a stream since.
  have bounded := size_le_of_run run
  rw [size_eq] at full bounded
  rw [kept.eq_of_length_le (bounded.trans full)] at new
  exact new known

/-! ## The result -/

/-- **The admission of sources**: first come, first served, and for good; a call on a source with a
stream is never refused, and a call on another one is refused with all its events. -/
theorem admits_of_run (run : (machine s).Run h st) : Admits s h st where
  tracked := tracked_of_run run
  bounded := size_le_of_run run
  asks hm asks := asks_of_run run hm asks
  kept split := by
    subst split
    exact kept_of_run run.before.1 run (List.prefix_append _ _)
  admitted arrival known := admitted_of_run run arrival known
  looks at_ phase := by simp [step, at_, phase]
  barred hm asks new full := barred_of_run run hm asks new full

/-- The calls 0 and 1 are on one source and call 2 is on the default one. These are two, so there is
no room for the source of call 3. -/
theorem admits_sample : ∃ h st, (machine Sample.settings).play Sample.labels = some (h, st) ∧
    asked h = ["a", "a", "d", "b"] ∧ st.streams.keys = ["a", "d"] ∧ rejectedOf h 3 = 1 ∧
    Admits Sample.settings h st := by
  have played : ((machine Sample.settings).play Sample.labels).map (fun r =>
      (asked r.1, r.2.streams.keys, rejectedOf r.1 3)) =
      some (["a", "a", "d", "b"], ["a", "d"], 1) := by
    decide +kernel
  obtain ⟨⟨h, st⟩, hr, facts⟩ := Option.map_eq_some_iff.mp played
  obtain ⟨sources, facts⟩ := Prod.mk.inj facts
  obtain ⟨keys, rejected⟩ := Prod.mk.inj facts
  exact ⟨h, st, hr, sources, keys, rejected, admits_of_run (Machine.run_of_play hr)⟩

end ChangeRelay.Dispatch
