import ChangeRelay.Proofs.Dispatch.Agreement
import ChangeRelay.Proofs.Dispatch.Waiting

/-!
# The calls on a source might as well come one after the other

Calls on a source come in at any time, wait, are dropped, and share the dispatcher with the calls on
other sources. Nothing of it can be told from what they do: there is a run in which only the calls
that had a turn come in, in the order of their turns, each after the one before has come to its end,
and everything is as it was (`OneByOne`). A call that was dropped is dropped at the same point
there, and the pipeline gives the same verdicts. What makes it so is that `run` of `DispatcherCore`
keeps the lock of a `SourceStream` from its first event to its reply.

* **`serialised_of_run`**: this is so in every run, for every source.

The run is found by replaying, turn by turn, what the call at work does (`Replay`): when a call sets
to work, the other dispatcher serves nobody, so the call can come in there, look for its stream and
join the line in a row.
-/

namespace ChangeRelay.Dispatch

/-- Effects without those that only calls in line are told of. -/
def quiet (es : List Effect) : List Effect :=
  es.filter fun
    | .wake _ => false
    | _ => true

/-- What the pipeline gets of an event. -/
def Taken.content (t : Taken) : String × Event := (t.source, t.event)

/-- The run `h'` is that of the calls on `x` one by one, in the order of their turns in `h`. -/
structure OneByOne (s : Settings) (h : History) (st : State) (x : String) (h' : History)
    (st' : State) : Prop where
  run : (machine s).Run h' st'
  /-- A call comes in when the one before has come to its end. -/
  alone : ∀ m ∈ h', m.label.request?.isSome = true → ∀ id, m.before.calls.get? id = none
  /-- One call after the other does what it did, up to its end or as far as it has come. -/
  labels : h'.map Moment.label = (turns h x).flatMap (Moment.labelsOf h)
  /-- It has the same effects, its reply among them. -/
  effects : ∀ i n, (turns h x)[i]? = some n →
    Moment.effectsOf h' i = quiet (Moment.effectsOf h n)
  taken : (pipeline h').map Taken.content = (reached h x).map Taken.content
  last : st'.last? x = st.last? x

/-- Of the calls on `x` nothing can be told but that they came one by one. -/
structure Serialised (s : Settings) (h : History) (st : State) (x : String) : Prop where
  once : (turns h x).Nodup
  oneByOne : ∃ h' st', OneByOne s h st x h' st'
  /-- What was taken of `x` is one block for each turn. -/
  blocks : reached h x = (turns h x).flatMap (takenOf h)
  /-- A block is a part of the events of its call. -/
  own : ∀ n ∈ turns h x, ∃ id r, ((machine s).arrivals h)[n]? = some (id, r) ∧ r.source s = x ∧
    PartOf (takenOf h n) r.events
  /-- The other calls on `x` that are answered are turned away. -/
  answered : ∀ m ∈ h, ∀ id r, ((machine s).arrivals h)[m.call]? = some (id, r) →
    r.source s = x → m.call ∉ turns h x → ∀ id' reply, .reply id' reply ∈ m.effects →
      TurnedAway s m r reply
  /-- A call for which there is no room changes no stream. -/
  refused : ∀ m ∈ h, Refused m → ∀ m' ∈ h, m'.call = m.call → Keeps s m'

/-- One by one, and nobody is there but the call at work. -/
structure Replay (s : Settings) (h : History) (st : State) (x : String) (h' : History)
    (st' : State) : Prop extends OneByOne s h st x h' st' where
  count : ((machine s).arrivals h').length = (turns h x).length
  keys : ∀ y ∈ st'.streams.keys, y = x
  calls : ∀ {id call}, st'.calls.get? id = some call ↔
    st.calls.get? id = some call ∧ call.AtWork x
  number : ∀ {id call}, st'.calls.get? id = some call →
    (machine s).numberOf h' id + 1 = (turns h x).length

variable {s : Settings} {st st' st₁ : State} {l : Label} {left : Left} {es : List Effect}
variable {h h' : History} {x : String}

/-! ## Effects without wakes -/

theorem quiet_append (es es' : List Effect) : quiet (es ++ es') = quiet es ++ quiet es' :=
  List.filter_append ..

theorem quiet_wakes (line : List CallId) (id : CallId) : quiet (wakes line id) = [] := by
  unfold wakes quiet
  split
  · cases (line.erase id).head? <;> rfl
  · rfl

theorem quiet_arrivalLines (r : Request) : quiet (arrivalLines r) = arrivalLines r := by
  cases r <;> rfl

theorem wakes_alone (id : CallId) : wakes [id] id = [] := by
  simp [wakes]

/-- A call that is alone in its line has the same effects, but that it wakes nobody. -/
theorem quiet_effects (w : Halted) (id : CallId) (line : List CallId) :
    quiet (w.effects id line) = w.effects id [id] := by
  unfold Halted.effects
  have logs : quiet (w.rejections.map fun r => .log (r.line w.walk.source)) =
      w.rejections.map fun r => .log (r.line w.walk.source) := by
    simp [quiet, List.filter_map, Function.comp_def]
  rw [quiet_append, logs]
  cases w.halt with
  | offer event => rfl
  | done =>
    simp only [quiet_append, quiet_wakes, wakes_alone]
    rfl

/-! ## What the call at work does, done again -/

/-- The streams of a dispatcher that serves one source only. -/
theorem After.keys_alone {id : CallId} (after : After st id left st')
    (alone : ∀ y ∈ st.streams.keys, y = left.source) : ∀ y ∈ st'.streams.keys, y = left.source := by
  intro y hy
  rw [after.keys] at hy
  split at hy
  · rcases List.mem_append.mp hy with hy | hy
    · exact alone y hy
    · exact List.mem_singleton.mp hy
  · exact alone y hy

/-- The call at work can do what it does where it is alone in the line. -/
theorem Move.replay (o : Orderly st) (o' : Orderly st') (m : Move s st l left es) {call : Call}
    (at_ : st.calls.get? l.id = some call) (work : call.AtWork x)
    (at' : st'.calls.get? l.id = some call) (last : st'.last? x = st.last? x)
    (line : st'.line x = [l.id]) :
    ∃ left', Move s st' l left' (quiet es) ∧ left'.source = x ∧ left'.call? = left.call? ∧
      left'.last? = left.last? := by
  obtain ⟨rfl, event, offering⟩ := work
  have phase : ∀ {old : Call}, st.calls.get? l.id = some old → old.phase = .offering event :=
    fun h => Option.some.inj (at_.symm.trans h) ▸ offering
  cases m with
  | empty free _ => exact absurd (free.symm.trans at_) (by simp)
  | sourceless free _ _ => exact absurd (free.symm.trans at_) (by simp)
  | arrive free _ _ => exact absurd (free.symm.trans at_) (by simp)
  | find old h _ => exact absurd (h.symm.trans (phase old)) (by simp)
  | refuse old h _ _ => exact absurd (h.symm.trans (phase old)) (by simp)
  | join old h => exact absurd (h.symm.trans (phase old)) (by simp)
  | @drop id old h =>
    obtain rfl := Option.some.inj (at_.symm.trans h)
    have m' := Move.drop (s := s) at'
    rw [line, Label.id, wakes_alone] at m'
    rw [quiet_wakes]
    refine ⟨_, m', rfl, rfl, ?_⟩
    have kept : ∀ st : State, Left.last? ⟨call.walk.source, none,
        (st.streams.get? call.walk.source).map fun stream =>
          { stream with line := stream.line.erase id }⟩ = st.last? call.walk.source := by
      intro st
      simp only [Left.last?, State.last?_eq]
      cases st.streams.get? call.walk.source <;> rfl
    exact (kept st').trans (last.trans (kept st).symm)
  | @work id old _ last? w h works =>
    rw [works.label_id] at at_ at' line
    obtain rfl := Option.some.inj (at_.symm.trans h)
    have works' : Works s st' id call l last? w := by
      cases works with
      | proceed waiting _ => exact absurd (waiting.symm.trans offering) (by simp)
      | answer verdict h =>
        rw [← last]
        exact .answer verdict h
    obtain ⟨stream, hs⟩ := o.opened at_ works.phase_ne
    obtain ⟨stream', hs'⟩ := o'.opened at' works'.phase_ne
    have m' := Move.work at' works'
    rw [line] at m'
    rw [quiet_effects]
    exact ⟨_, m', rfl, rfl, (left_last? w id last? hs').trans (left_last? w id last? hs).symm⟩

/-- Only `x` is served, and nobody is there but the call `id`. -/
structure Solo (x : String) (last? : Option UInt64) (id : CallId) (call? : Option Call)
    (line : List CallId) (st : State) : Prop where
  calls : ∀ id', st.calls.get? id' = if id' = id then call? else none
  last : st.last? x = last?
  line : st.line x = line
  keys : ∀ y ∈ st.streams.keys, y = x

section Solo

variable {last? : Option UInt64} {id : CallId} {call? : Option Call} {line line' : List CallId}

theorem Solo.after (solo : Solo x last? id call? line st) (after : After st id left st')
    (source : left.source = x) (last : left.last? = last?) (joined : left.line = line') :
    Solo x last? id left.call? line' st' := by
  subst source joined
  refine ⟨fun id' => ?_, ?_, ?_, after.keys_alone solo.keys⟩
  · rw [after.calls, solo.calls]
    by_cases hid : id' = id
    · rw [if_pos hid, if_pos hid]
    · rw [if_neg hid, if_neg hid, if_neg hid]
  · rw [after.last?, if_pos rfl, last]
  · rw [after.line, if_pos rfl]

theorem Solo.at_ {call : Call} (solo : Solo x last? id (some call) line st) :
    st.calls.get? id = some call := by
  rw [solo.calls, if_pos rfl]

theorem Solo.arrive (solo : Solo x last? id none [] st) {r : Request} (source : r.source s = x)
    (ne : r.events ≠ []) (named : r.lacksSource = false) :
    ∃ st', step s st (.arrive id r) = some (st', arrivalLines r) ∧
      Solo x last? id (some ⟨.start x r.events, .arrived⟩) [] st' := by
  subst source
  have free : st.calls.get? id = none := by rw [solo.calls, if_pos rfl]
  obtain ⟨st', h, after⟩ := (Move.arrive free ne named).step (s := s)
  have line := (State.line_eq st (r.source s)).symm.trans solo.line
  exact ⟨st', h, solo.after after rfl solo.last line⟩

theorem Solo.lookup {w : Walk} (solo : Solo w.source last? id (some ⟨w, .arrived⟩) [] st)
    (room : 0 < s.maxStreams) :
    ∃ st', step s st (.lookup id) = some (st', []) ∧
      Solo w.source last? id (some ⟨w, .found⟩) [] st' ∧
      ∃ stream, st'.streams.get? w.source = some stream := by
  have room : w.source ∉ st.streams.keys → st.streams.size < s.maxStreams := by
    intro new
    have : st.streams.keys = [] := by
      refine List.eq_nil_iff_forall_not_mem.mpr fun y hy => ?_
      rw [solo.keys y hy] at hy
      exact new hy
    rw [size_eq, this]
    exact room
  obtain ⟨st', h, after⟩ := (Move.find solo.at_ rfl room).step
  have last := solo.last
  have line := solo.line
  rw [State.last?_eq] at last
  rw [State.line_eq] at line
  refine ⟨st', h, ?_, _, (after.streams _).trans (if_pos rfl)⟩
  cases hx : st.streams.get? w.source with
  | none =>
    rw [hx] at after last
    exact solo.after after rfl last rfl
  | some stream =>
    rw [hx] at after last line
    exact solo.after after rfl last line

theorem Solo.join {w : Walk} (solo : Solo w.source last? id (some ⟨w, .found⟩) [] st)
    {stream : Stream} (opened : st.streams.get? w.source = some stream) :
    ∃ st', step s st (.join id) = some (st', []) ∧
      Solo w.source last? id (some ⟨w, .inLine⟩) [id] st' ∧
      ∃ stream, st'.streams.get? w.source = some stream := by
  obtain ⟨st', h, after⟩ := (Move.join solo.at_ rfl).step (s := s)
  have last := (last?_of_get? opened).symm.trans solo.last
  have line := (line_of_get? opened).symm.trans solo.line
  have stream' := (after.streams w.source).trans (if_pos rfl)
  simp only [opened, Option.map_some] at after stream'
  refine ⟨st', h, solo.after after rfl last ?_, _, stream'⟩
  simp [Left.line, line]

theorem Solo.proceed {w : Walk} (solo : Solo w.source last? id (some ⟨w, .inLine⟩) [id] st)
    {stream : Stream} (opened : st.streams.get? w.source = some stream) :
    ∃ st' line, step s st (.proceed id) = some (st', (w.resume s last?).effects id [id]) ∧
      Solo w.source last? id (w.resume s last?).call? line st' := by
  have first : (st.line w.source).head? = some id := by
    rw [solo.line]
    rfl
  obtain ⟨st', h, after⟩ := (Move.work solo.at_ (.proceed (s := s) rfl first)).step
  simp only [solo.line, solo.last] at h after
  exact ⟨st', _, h, solo.after after rfl (left_last? _ id last? opened) rfl⟩

theorem goes_step {st'' : State} {ls : List Label} {es' : List Effect}
    (h : step s st l = some (st', es)) (name : l.id = id) (old : l.request? = none)
    (rest : (machine s).Goes id st' ls es' st'') :
    (machine s).Goes id st (l :: ls) (es ++ es') st'' :=
  .step h name old rest

/-- A call can come in where nobody is there, and set to work at once. -/
theorem Solo.begin (solo : Solo x last? id none [] st) (room : 0 < s.maxStreams) {r : Request}
    (source : r.source s = x) (ne : r.events ≠ []) (named : r.lacksSource = false) :
    let w := (Walk.start x r.events).resume s last?
    ∃ st₁ st' line, step s st (.arrive id r) = some (st₁, arrivalLines r) ∧
      (machine s).Goes id st₁ [.lookup id, .join id, .proceed id] (w.effects id [id]) st' ∧
      Solo x last? id w.call? line st' := by
  intro w
  obtain ⟨st₁, h₁, solo₁⟩ := solo.arrive source ne named
  obtain ⟨st₂, h₂, solo₂, stream₂, opened₂⟩ := Solo.lookup (w := .start x r.events) solo₁ room
  obtain ⟨st₃, h₃, solo₃, stream₃, opened₃⟩ := solo₂.join (s := s) opened₂
  obtain ⟨st₄, line, h₄, solo₄⟩ := solo₃.proceed (s := s) opened₃
  refine ⟨st₁, st₄, line, h₁, ?_, solo₄⟩
  have goes := goes_step h₂ rfl rfl (goes_step h₃ rfl rfl (goes_step h₄ rfl rfl .stop))
  rw [List.append_nil] at goes
  exact goes

end Solo

/-! ## Replaying a run -/

/-- A step that is none of the call at work leaves everything as it is. -/
theorem Replay.aside (p : Replay s h st x h' st') (run : (machine s).Run h st)
    (hs : step s st l = some (st₁, es)) (m : Move s st l left es) (after : After st l.id left st₁)
    (turn : ∀ n, turn? x ⟨n, l, st, es⟩ = none)
    (old : ∀ call, st.calls.get? l.id = some call → ¬call.AtWork x)
    (new : ∀ call, left.call? = some call → ¬call.AtWork x) :
    Replay s (h ++ [next s h st l es]) st₁ x h' st' := by
  have o := orderly_of_run run
  have hn : (next s h st l es).call ∉ turns h x := (turning_of_run run x).callOf_not_mem hs old
  have other : ∀ n ∈ turns h x, (next s h st l es).call ≠ n := fun n hm e => hn (e ▸ hm)
  have elsewhere : ∀ t, taken? (next s h st l es) = some t → t.source ≠ x := by
    rintro t ht rfl
    obtain ⟨call, at_, work⟩ := taken?_atWork ht
    exact old call at_ work
  refine ⟨⟨p.run, p.alone, ?_, ?_, ?_, ?_⟩, ?_, p.keys, ?_, ?_⟩
  · rw [turns_aside s h turn, p.labels, Moment.flatMap_labelsOf hn]
  · intro i n hi
    rw [turns_aside s h turn] at hi
    rw [p.effects i n hi, Moment.effectsOf_concat, if_neg (other n (List.mem_of_getElem? hi)),
      List.append_nil]
  · rw [p.taken, reached_concat_other elsewhere]
  · rw [p.last, last?_kept o m after elsewhere]
  · rw [turns_aside s h turn, p.count]
  · intro id call
    rw [p.calls, after.calls]
    by_cases hid : id = l.id
    · rw [if_pos hid, hid]
      exact iff_of_false (fun h => old call h.1 h.2) fun h => new call h.1 h.2
    · rw [if_neg hid]
  · intro id call hc
    rw [turns_aside s h turn]
    exact p.number hc

/-- Of an event on offer the pipeline gets the same, whoever else is there. -/
theorem taken?_content {n n' : Nat} {es' : List Effect}
    (same : st'.calls.get? l.id = st.calls.get? l.id) :
    (taken? ⟨n', l, st', es'⟩).map Taken.content = (taken? ⟨n, l, st, es⟩).map Taken.content := by
  unfold taken?
  cases l with
  | answer id verdict =>
    cases verdict with
    | taken =>
      simp only [Label.id] at same
      simp only [same]
      split <;> rfl
    | failed _ => rfl
  | _ => rfl

/-- All that is taken of the call at work is of its source. -/
theorem filter_taken? {m : Moment State Label Effect} {call : Call}
    (at_ : m.before.calls.get? m.label.id = some call) (work : call.AtWork x) :
    ((taken? m).toList.filter fun t => t.source = x) = (taken? m).toList := by
  refine List.filter_eq_self.mpr fun t ht => ?_
  obtain ⟨call', at', work'⟩ := taken?_atWork (Option.mem_toList.mp ht)
  obtain rfl := Option.some.inj (at_.symm.trans at')
  exact decide_eq_true (work'.1.symm.trans work.1)

/-- The call at work is alone in the line. -/
theorem Replay.line (p : Replay s h st x h' st') (run : (machine s).Run h st) {id : CallId}
    {call : Call} (at_ : st.calls.get? id = some call) (work : call.AtWork x) :
    st'.line x = [id] := by
  have o := orderly_of_run run
  have o' := orderly_of_run p.run
  have head := o'.head (p.calls.mpr ⟨at_, work⟩) work
  obtain ⟨rest, hrest⟩ := List.head?_eq_some_iff.mp head
  have nodup := o'.nodup x
  rw [hrest, List.nodup_cons] at nodup
  have : rest = [] := by
    refine List.eq_nil_iff_forall_not_mem.mpr fun id' hid' => ?_
    obtain ⟨call', hc, -, -⟩ := o'.mem_line.mp (hrest ▸ List.mem_cons_of_mem id hid')
    obtain ⟨hc, work'⟩ := p.calls.mp hc
    have := Option.some.inj ((o.head at_ work).symm.trans (o.head hc work'))
    exact nodup.1 (this ▸ hid')
  rw [hrest, this]

/-- The effects of each call are the same as long as those of the last one are. -/
theorem effects_row {ns : List Nat} {m : Moment State Label Effect} {ms : History}
    {ls : List Label} {es' : List Effect} (row : Machine.Row ms ns.length ls es')
    (fresh : m.call ∉ ns)
    (before : ∀ j n, ns[j]? = some n → Moment.effectsOf h' j = quiet (Moment.effectsOf h n))
    (last : Moment.effectsOf h' ns.length ++ es' =
      quiet (Moment.effectsOf h m.call ++ m.effects)) {j n : Nat}
    (hj : (ns ++ [m.call])[j]? = some n) :
    Moment.effectsOf (h' ++ ms) j = quiet (Moment.effectsOf (h ++ [m]) n) := by
  rw [row.effectsOf, Moment.effectsOf_concat]
  by_cases hjn : ns.length = j
  · subst hjn
    obtain rfl : m.call = n := by simpa using hj
    rw [if_pos rfl, if_pos rfl, last]
  · have hlt : j < ns.length := by
      have := (List.getElem?_eq_some_iff.mp hj).1
      rw [List.length_append, List.length_singleton] at this
      omega
    rw [List.getElem?_append_left hlt] at hj
    have hne : m.call ≠ n := fun e => fresh (e ▸ List.mem_of_getElem? hj)
    rw [if_neg hjn, if_neg hne, List.append_nil, List.append_nil, before j n hj]

/-- The call at work has had the last turn, and is the last one that came in where it is alone. -/
theorem Replay.last_turn (p : Replay s h st x h' st') (run : (machine s).Run h st) {id : CallId}
    {call : Call} (at_ : st.calls.get? id = some call) (work : call.AtWork x) :
    ∃ pre, turns h x = pre ++ [(machine s).numberOf h id] ∧ (machine s).numberOf h id ∉ pre ∧
      (machine s).numberOf h' id = pre.length := by
  have t := turning_of_run run x
  obtain ⟨pre, hpre⟩ := List.getLast?_eq_some_iff.mp (t.last at_ work)
  refine ⟨pre, hpre, fun hm => ?_, ?_⟩
  · have once := t.once
    rw [hpre, List.nodup_append] at once
    exact once.2.2 _ hm _ (List.mem_singleton_self _) rfl
  · have := p.number (p.calls.mpr ⟨at_, work⟩)
    rw [hpre, List.length_append, List.length_singleton] at this
    omega

/-- The call at work goes on. -/
theorem Replay.goOn (p : Replay s h st x h' st') (run : (machine s).Run h st)
    (hs : step s st l = some (st₁, es)) (m : Move s st l left es) (after : After st l.id left st₁)
    {call : Call} (turn : ∀ n, turn? x ⟨n, l, st, es⟩ = none)
    (at_ : st.calls.get? l.id = some call) (work : call.AtWork x)
    (new : ∀ call, left.call? = some call → call.AtWork x) :
    ∃ h'' st'', Replay s (h ++ [next s h st l es]) st₁ x h'' st'' := by
  have o := orderly_of_run run
  have t := turning_of_run run x
  have at' := p.calls.mpr ⟨at_, work⟩
  obtain ⟨left', m', source', call', last'⟩ :=
    m.replay o (orderly_of_run p.run) at_ work at' p.last (p.line run at_ work)
  obtain ⟨st'', hs', after'⟩ := m'.step
  have source : left.source = x := (m.source_old at_).symm.trans work.1
  have n' : (next s h' st' l (quiet es)).call = (machine s).numberOf h' l.id := callOf_old hs' at'
  have n : (next s h st l es).call = (machine s).numberOf h l.id := callOf_old hs at_
  have old : (machine s).request? l = none := request?_eq_none hs at_
  obtain ⟨pre, hpre, fresh, i⟩ := p.last_turn run at_ work
  rw [← n] at hpre fresh
  have last : (turns h x)[pre.length]? = some (next s h st l es).call := by simp [hpre]
  have row : Machine.Row [next s h' st' l (quiet es)] pre.length [l] (quiet es) :=
    ⟨rfl, by simp [Machine.moment], by simp [n', i]⟩
  refine ⟨h' ++ [next s h' st' l (quiet es)], st'', ⟨p.run.next hs', ?_, ?_, ?_, ?_, ?_⟩,
    ?_, ?_, ?_, ?_⟩
  · intro m hm comes
    rcases List.mem_append.mp hm with hm | hm
    · exact p.alone m hm comes
    · rw [List.mem_singleton.mp hm] at comes
      exact absurd comes (by simp [Machine.moment, request?_eq_none hs at_])
  · rw [List.map_append, p.labels, turns_aside s h turn, hpre,
      Moment.flatMap_labelsOf_last (hpre ▸ t.once)]
    rfl
  · rw [turns_aside s h turn, hpre]
    refine fun j k => effects_row row fresh (fun j k hj => p.effects j k ?_) ?_
    · rw [hpre, List.getElem?_append_left (List.getElem?_eq_some_iff.mp hj).1, hj]
    · rw [p.effects _ _ last, quiet_append]
      rfl
  · have content : (taken? (next s h' st' l (quiet es))).map Taken.content =
        (taken? (next s h st l es)).map Taken.content := taken?_content (at'.trans at_.symm)
    have filtered := filter_taken? (m := next s h st l es) at_ work
    rw [pipeline_concat, reached_concat, filtered, List.map_append, List.map_append, p.taken,
      ← Option.toList_map, ← Option.toList_map, content]
  · rw [after'.last?, if_pos source'.symm, last', after.last?, if_pos source.symm]
  · rw [Machine.arrivals_concat_none _ old, p.count, turns_aside s h turn]
  · rw [← source'] at p ⊢
    exact after'.keys_alone p.keys
  · intro id call
    rw [after'.calls, after.calls, call']
    by_cases hid : id = l.id
    · rw [if_pos hid, if_pos hid]
      exact ⟨fun h => ⟨h, new _ h⟩, And.left⟩
    · rw [if_neg hid, if_neg hid, p.calls]
  · intro id call hc
    rw [Machine.numberOf_next id (.inl old), turns_aside s h turn]
    rw [after'.calls] at hc
    by_cases hid : id = l.id
    · rw [hid]
      exact p.number at'
    · rw [if_neg hid] at hc
      exact p.number hc

/-- A call whose turn comes finds nobody there. -/
theorem Replay.solo (p : Replay s h st x h' st') (run : (machine s).Run h st) {id : CallId}
    {call : Call} (at_ : st.calls.get? id = some call) (phase : call.phase = .inLine)
    (first : (st.line x).head? = some id) : Solo x (st.last? x) id none [] st' := by
  have free : ∀ id', st'.calls.get? id' = none := by
    intro id'
    rw [Option.eq_none_iff_forall_ne_some]
    intro call' hc
    obtain ⟨hc, work⟩ := p.calls.mp hc
    obtain rfl := Option.some.inj (((orderly_of_run run).head hc work).symm.trans first)
    obtain rfl := Option.some.inj (at_.symm.trans hc)
    exact not_atWork (by simp [phase]) work
  refine ⟨fun id' => ?_, p.last, ?_, p.keys⟩
  · rw [free, ite_self]
  · refine List.eq_nil_iff_forall_not_mem.mpr fun id' hm => ?_
    obtain ⟨call', hc, -, -⟩ := (orderly_of_run p.run).mem_line.mp hm
    exact absurd ((free id').symm.trans hc) (by simp)

/-- Nothing is taken but under a verdict. -/
theorem pipeline_append_none {ms : History}
    (hl : ∀ id, Label.answer id .taken ∉ ms.map Moment.label) :
    pipeline (h ++ ms) = pipeline h := by
  have none : ∀ m ∈ ms, taken? m = none := by
    intro m hm
    unfold taken?
    split
    · next id e => exact absurd (e ▸ List.mem_map_of_mem hm) (hl id)
    · rfl
  unfold pipeline
  rw [List.filterMap_append, List.filterMap_eq_nil_iff.mpr none, List.append_nil]

/-- One more call comes in when nobody is there. -/
theorem alone_append {m₀ : Moment State Label Effect} {ms : History}
    (alone : ∀ m ∈ h, m.label.request?.isSome = true → ∀ id, m.before.calls.get? id = none)
    (free : ∀ id, m₀.before.calls.get? id = none)
    (old : ∀ l ∈ ms.map Moment.label, l.request? = none) :
    ∀ m ∈ h ++ m₀ :: ms, m.label.request?.isSome = true →
      ∀ id, m.before.calls.get? id = none := by
  intro m hm arrives
  rcases List.mem_append.mp hm with hm | hm
  · exact alone m hm arrives
  · rcases List.mem_cons.mp hm with rfl | hm
    · exact free
    · rw [old _ (List.mem_map_of_mem hm)] at arrives
      exact absurd arrives (by simp)

/-- Where a call is in line there is room for its stream. -/
theorem room_of_run (run : (machine s).Run h st) {id : CallId} {call : Call}
    (at_ : st.calls.get? id = some call) (phase : call.phase = .inLine) : 0 < s.maxStreams := by
  obtain ⟨stream, hx⟩ := (orderly_of_run run).opened at_ (by simp [phase])
  have := List.length_pos_of_mem ((st.streams.mem_keys_iff _).mpr (by rw [hx]; rfl))
  rw [← size_eq] at this
  exact Nat.lt_of_lt_of_le this (size_le_of_run run)

/-- All that a call has done when its turn comes. -/
theorem Waits.turn {id : CallId} {call : Call} {r : Request} (w : Waits s h id call r)
    (hs : Dispatch.step s st (.proceed id) = some (st', es))
    (at_ : st.calls.get? id = some call) (phase : call.phase = .inLine) :
    Moment.labelsOf (h ++ [Dispatch.next s h st (.proceed id) es]) ((machine s).numberOf h id) =
      [.arrive id r, .lookup id, .join id, .proceed id] := by
  have labels := labelsOf_old (h := h) hs at_
  rw [show (Label.proceed id).id = id from rfl, w.labels, phase] at labels
  exact labels

/-- What a call does when its turn comes. -/
theorem Move.begins {id : CallId} (m : Move s st (.proceed id) left es) {call : Call}
    (at_ : st.calls.get? id = some call) :
    let w := call.walk.resume s (st.last? call.walk.source)
    left.call? = w.call? ∧ es = w.effects id (st.line call.walk.source) := by
  cases m with
  | work old works =>
    cases works with
    | proceed _ _ =>
      obtain rfl := Option.some.inj (at_.symm.trans old)
      exact ⟨rfl, rfl⟩

/-- A call sets to work. -/
theorem Replay.begin (p : Replay s h st x h' st') (run : (machine s).Run h st) {id : CallId}
    (hs : step s st (.proceed id) = some (st₁, es)) (m : Move s st (.proceed id) left es)
    (after : After st id left st₁) {call : Call} (at_ : st.calls.get? id = some call)
    (source : call.walk.source = x) (phase : call.phase = .inLine)
    (first : (st.line x).head? = some id)
    (new : ∀ call, left.call? = some call → call.AtWork x) :
    ∃ h'' st'', Replay s (h ++ [next s h st (.proceed id) es]) st₁ x h'' st'' := by
  have o := orderly_of_run run
  have t := turning_of_run run x
  have waiting : ∀ event, call.phase ≠ .offering event := by simp [phase]
  obtain ⟨r, f⟩ := follows_of_run run at_
  obtain ⟨r', w⟩ := waits_of_run run at_ waiting
  obtain rfl : r = r' :=
    (Prod.mk.inj (Option.some.inj (f.arrival.symm.trans w.arrival))).2
  obtain rfl : r.source s = x := f.source.symm.trans source
  obtain ⟨call_eq, effects_eq⟩ := m.begins at_
  rw [f.fresh waiting] at call_eq effects_eq
  obtain ⟨st₂, st'', line, h₂, goes, solo⟩ :=
    (p.solo run at_ phase first).begin (room_of_run run at_ phase) rfl f.some f.named
  have comes : (machine s).step st' (.arrive id r) = some (st₂, arrivalLines r) := h₂
  obtain ⟨ms, run', row, arrivals, number⟩ := p.run.arrives comes rfl goes
  -- In `h` this is a turn more, and in `h'` a row more at the end.
  have n : (next s h st (.proceed id) es).call = (machine s).numberOf h id := callOf_old hs at_
  have fresh : (next s h st (.proceed id) es).call ∉ turns h (r.source s) := fun hm =>
    not_atWork waiting ((t.mem_iff at_).mp (n ▸ hm))
  have more : turns (h ++ [next s h st (.proceed id) es]) (r.source s) =
      turns h (r.source s) ++ [(next s h st (.proceed id) es).call] := by
    rw [turns_concat, turn?_proceed rfl at_ source]
    rfl
  have quiet_es : quiet es = (((Walk.start (r.source s) r.events).resume s
      (st.last? (r.source s))).effects id [id]) := by
    rw [effects_eq, quiet_effects]
    rfl
  refine ⟨_, st'', ⟨run', ?_, ?_, ?_, ?_, ?_⟩, ?_, solo.keys, ?_, ?_⟩
  · refine alone_append p.alone (fun id' => ?_) fun l hl => ?_
    · exact ((p.solo run at_ phase first).calls id').trans (ite_self _)
    · rw [(List.cons.inj row.labels).2] at hl
      simp only [List.mem_cons, List.not_mem_nil, or_false] at hl
      rcases hl with rfl | rfl | rfl
      · rfl
      · rfl
      · rfl
  · rw [more, List.map_append, p.labels, row.labels, List.flatMap_append,
      Moment.flatMap_labelsOf fresh, List.flatMap_singleton, n, w.turn hs at_ phase]
  · rw [more]
    rw [p.count] at row
    refine fun j k => effects_row row fresh p.effects ?_
    rw [p.run.effectsOf_fresh (Nat.le_of_eq p.count), n, w.effects, quiet_append,
      quiet_arrivalLines, List.nil_append, ← quiet_es]
    rfl
  · have nothing : ∀ id', Label.answer id' .taken ∉
        (next s h' st' (.arrive id r) (arrivalLines r) :: ms).map Moment.label := by
      intro id'
      rw [row.labels]
      simp
    have kept : taken? (next s h st (.proceed id) es) = none := rfl
    rw [pipeline_append_none nothing, p.taken, reached_concat_none kept]
  · rw [solo.last]
    exact (last?_kept o m after (n := (next s h st (.proceed id) es).call)
      fun t ht => absurd ht (by simp [taken?])).symm
  · rw [arrivals, more, List.length_append, List.length_append, p.count]
    rfl
  · intro id' call'
    rw [solo.calls, after.calls]
    by_cases hid : id' = id
    · rw [if_pos hid, if_pos hid, call_eq]
      exact ⟨fun hc => ⟨hc, new call' (call_eq.trans hc)⟩, And.left⟩
    · rw [if_neg hid, if_neg hid]
      refine iff_of_false (by simp) fun hc => hid ?_
      exact Option.some.inj ((o.head hc.1 hc.2).symm.trans first)
  · intro id' call' hc
    rw [solo.calls] at hc
    by_cases hid : id' = id
    · rw [hid, show (machine s).numberOf _ id = _ from number, p.count, more,
        List.length_append]
      rfl
    · rw [if_neg hid] at hc
      exact absurd hc (by simp)

theorem Replay.step (p : Replay s h st x h' st') (run : (machine s).Run h st)
    (hs : step s st l = some (st₁, es)) :
    ∃ h'' st'', Replay s (h ++ [next s h st l es]) st₁ x h'' st'' := by
  obtain ⟨left, m, after⟩ := step_move hs
  cases m.part (orderly_of_run run) x with
  | aside turn old new => exact ⟨h', st', p.aside run hs m after turn old new⟩
  | begin label at_ source phase first new =>
    subst label
    exact p.begin run hs m after at_ source phase first new
  | goOn turn at_ work new => exact p.goOn run hs m after turn at_ work new

theorem replay_of_run (run : (machine s).Run h st) (x : String) :
    ∃ h' st', Replay s h st x h' st' := by
  induction run with
  | start =>
    refine ⟨[], .start, ⟨.start, by simp, rfl, ?_, rfl, rfl⟩, rfl, ?_, ?_, ?_⟩
    · intro i n hi
      exact absurd hi (by simp [turns])
    · intro y hy
      exact absurd hy (by simp [State.start, Table.empty, Table.keys])
    · intro id call
      simp [State.start, machine]
    · intro id call hc
      exact absurd hc (by simp [State.start])
  | next run hs ih =>
    obtain ⟨h', st', p⟩ := ih
    exact p.step run hs

/-! ## What can be told of a source -/

/-- Who has had a turn at a source came in for it. -/
theorem source_of_turn (run : (machine s).Run h st) {n : Nat} (hn : n ∈ turns h x) :
    ∃ id r, ((machine s).arrivals h)[n]? = some (id, r) ∧ r.source s = x := by
  induction run with
  | start => exact absurd hn (by simp [turns])
  | @next h st st' l es run hs ih =>
    rw [turns_concat, List.mem_append, Option.mem_toList] at hn
    rcases hn with hn | hn
    · obtain ⟨id, r, arrival, source⟩ := ih hn
      exact ⟨id, r, Machine.arrivals_mono _ _ arrival, source⟩
    · obtain ⟨call, at_, source, rfl⟩ := turn?_spec hn
      obtain ⟨r, f⟩ := follows_of_run run at_
      refine ⟨l.id, r, ?_, f.source.symm.trans source⟩
      rw [show (next s h st l es).call = _ from callOf_old hs at_]
      exact Machine.arrivals_mono _ _ f.arrival

/-- **The calls on a source might as well have come one by one**, in every run. -/
theorem serialised_of_run (run : (machine s).Run h st) (x : String) : Serialised s h st x where
  once := (turning_of_run run x).once
  oneByOne := by
    obtain ⟨h', st', p⟩ := replay_of_run run x
    exact ⟨h', st', p.toOneByOne⟩
  blocks := blocks_of_run run x
  own := fun n hn => by
    obtain ⟨id, r, arrival, source⟩ := source_of_turn run hn
    exact ⟨id, r, arrival, source, block_of_run run arrival⟩
  answered := fun m hm id r arrival source without id' reply hr => by
    obtain ⟨r', arrival', turn⟩ := answered_of_run run hm hr
    obtain rfl := (Prod.mk.inj (Option.some.inj (arrival.symm.trans arrival'))).2
    rw [source] at turn
    exact turn.resolve_left without
  refused := fun m hm refused m' hm' same => keeps_of_run run hm refused hm' same

/-- The sample: at its first source the two calls take turns, though the first is dropped. -/
theorem serialised_sample : ∃ h st, (machine Sample.settings).play Sample.labels = some (h, st) ∧
    turns h "a" = [0, 1] ∧ Serialised Sample.settings h st "a" := by
  have played : ((machine Sample.settings).play Sample.labels).map (fun r => turns r.1 "a") =
      some [0, 1] := by
    decide +kernel
  obtain ⟨⟨h, st⟩, hr, turns⟩ := Option.map_eq_some_iff.mp played
  exact ⟨h, st, hr, turns, serialised_of_run (Machine.run_of_play hr) "a"⟩

end ChangeRelay.Dispatch
