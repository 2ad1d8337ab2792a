import ChangeRelay.Proofs.Dispatch.Outcome

/-!
# Calls come to their end

Nothing but the callers and the pipeline keeps a call from its end. A call at the head of its line
can set to work, and with every verdict it has fewer events left; so it comes to its end, and the
next call moves up. A call that comes in can be brought to its answer in this way whatever stands
in line before it, and with any verdicts of the pipeline.

* **`finishes`**: the call at the head of a line comes to its end with any verdicts.
* **`clears`**: so do those in line before a call.
* **`outcome_of_run`**: every call can be answered, and the answer is what the reference says.
-/

namespace ChangeRelay.Dispatch

/-- The call `id` on `x` goes from `st` to its end, with the verdicts that `answers` gives one after
the other, and leaves the others where they are. -/
structure Finishes (s : Settings) (id : CallId) (x : String) (answers : Nat → Pipeline.Verdict)
    (st : State) (ls : List Label) (es : List Effect) (st' : State) : Prop where
  goes : (machine s).Goes id st ls es st'
  works : ∀ l ∈ ls, l = .proceed id ∨ ∃ verdict, l = .answer id verdict
  verdicts : ∃ k, ls.filterMap Label.verdict? = (List.range k).map answers
  replies : ∃ reply, .reply id reply ∈ es
  others : ∀ id', id' ≠ id → st'.calls.get? id' = st.calls.get? id'
  line : st'.line x = (st.line x).erase id

variable {s : Settings} {st st' : State} {l : Label} {left : Left} {es : List Effect}
variable {h : History} {n : Nat} {x : String} {last? : Option UInt64} {id : CallId}

/-! ## The head of a line -/

/-- With a verdict a walk has fewer events left. -/
theorem settle_todo_lt (s : Settings) (last? : Option UInt64) {w : Walk} (event : Event)
    (verdict : Pipeline.Verdict) {e : Wire.Event} {es : List Wire.Event} (todo : w.todo = e :: es) :
    (w.settle s last? event verdict).2.walk.todo.length < w.todo.length := by
  cases verdict with
  | taken =>
    obtain ⟨-, hf⟩ := settle_taken s last? w event
    rw [hf.todo, List.length_drop, todo]
    simp only [Walk.taken, todo, List.tail_cons, List.length_cons]
    omega
  | failed fault =>
    obtain ⟨-, hf⟩ := settle_failed s last? event fault todo
    obtain ⟨r, hr, -⟩ := settle_failed_index s last? w event fault
    have := List.length_pos_of_mem hr
    rw [hf.todo, List.length_drop, todo]
    simp only [List.length_cons]
    omega

/-- A call works: it stops at the next offer, or comes to its end. -/
theorem works_step (o : Orderly st) {call : Call} {w : Halted}
    (at_ : st.calls.get? id = some call) (works : Works s st id call l last? w) :
    ∃ st', step s st l = some (st', w.effects id (st.line call.walk.source)) ∧
      (∀ id', id' ≠ id → st'.calls.get? id' = st.calls.get? id') ∧
      st'.calls.get? id = w.call? ∧
      st'.line call.walk.source = match w.halt with
        | .offer _ => st.line call.walk.source
        | .done => (st.line call.walk.source).erase id := by
  obtain ⟨stream, hs⟩ := o.opened at_ works.phase_ne
  obtain ⟨st', h, after⟩ := (Move.work at_ works).step
  rw [works.label_id] at after
  refine ⟨st', h, ?_, ?_, ?_⟩
  · intro id' hid
    rw [after.calls, if_neg hid]
  · rw [after.calls, if_pos rfl]
  · rw [after.line, if_pos rfl, line_of_get? hs]
    simp only [Left.line, hs, Option.map_some, Option.getD_some, Halted.stream]
    cases w.halt <;> rfl

/-- A call at its end. -/
theorem Finishes.last (o : Orderly st) {call : Call} {w : Halted}
    (at_ : st.calls.get? id = some call) (works : Works s st id call l last? w)
    (done : w.halt = .done) (answers : Nat → Pipeline.Verdict)
    (verdict : ∃ k, l.verdict?.toList = (List.range k).map answers)
    (label : l = .proceed id ∨ ∃ verdict, l = .answer id verdict) :
    ∃ es st', Finishes s id call.walk.source answers st [l] es st' := by
  obtain ⟨st', h, others, -, line⟩ := works_step o at_ works
  refine ⟨_, st', .step h works.label_id works.request?_eq .stop, ?_, ?_, ?_, others, ?_⟩
  · intro l' hl
    rwa [List.mem_singleton.mp hl]
  · obtain ⟨k, hk⟩ := verdict
    refine ⟨k, ?_⟩
    rw [← hk]
    cases hv : l.verdict? <;> simp [hv]
  · refine ⟨w.walk.tally.reply, ?_⟩
    simp [Halted.effects, done]
  · rw [line, done]

/-- A call that has worked up to an offer comes to its end from there. -/
theorem Finishes.cons (o : Orderly st) {call : Call} {w : Halted}
    (at_ : st.calls.get? id = some call) (works : Works s st id call l last? w) {event : Event}
    (offer : w.halt = .offer event) {answers later : Nat → Pipeline.Verdict}
    (label : l = .proceed id ∨ ∃ verdict, l = .answer id verdict)
    (verdicts : ∀ k, ∃ k', l.verdict?.toList ++ (List.range k).map later =
      (List.range k').map answers)
    (rest : ∀ {st₁}, Orderly st₁ → st₁.calls.get? id = some ⟨w.walk, .offering event⟩ →
      ∃ ls es st', Finishes s id w.walk.source later st₁ ls es st') :
    ∃ ls es st', Finishes s id call.walk.source answers st ls es st' := by
  obtain ⟨st₁, h, others, call₁, line⟩ := works_step o at_ works
  simp only [Halted.call?, offer] at call₁ line
  obtain ⟨ls, es, st', f⟩ := rest (o.step h) call₁
  obtain ⟨k, hk⟩ := f.verdicts
  obtain ⟨k', hk'⟩ := verdicts k
  refine ⟨l :: ls, _, st', .step h works.label_id works.request?_eq f.goes, ?_, ⟨k', ?_⟩, ?_, ?_, ?_⟩
  · intro l' hl
    rcases List.mem_cons.mp hl with rfl | hl
    · exact label
    · exact f.works l' hl
  · rw [← hk', ← hk]
    cases hv : l.verdict? <;> simp [hv]
  · obtain ⟨reply, hr⟩ := f.replies
    exact ⟨reply, List.mem_append_right _ hr⟩
  · intro id' hid
    rw [f.others id' hid, others id' hid]
  · have := f.line
    rwa [works.source o at_, line] at this

/-- A call with an event on offer comes to its end, by induction on the events it has left. -/
theorem finishes_offering (o : Orderly st) {walk : Walk} {event : Event}
    (at_ : st.calls.get? id = some ⟨walk, .offering event⟩) (answers : Nat → Pipeline.Verdict) :
    ∃ ls es st', Finishes s id walk.source answers st ls es st' := by
  generalize hk : walk.todo.length = k
  induction k using Nat.strongRecOn generalizing st walk event answers with
  | ind k ih =>
    subst hk
    obtain ⟨e, es, todo, -⟩ := o.offer at_
    have works : Works s st id ⟨walk, .offering event⟩ (.answer id (answers 0)) _ _ :=
      .answer (answers 0) rfl
    have less := settle_todo_lt s (st.last? walk.source) event (answers 0) todo
    cases hw : (walk.settle s (st.last? walk.source) event (answers 0)).2.halt with
    | done =>
      obtain ⟨es, st', f⟩ := Finishes.last o at_ works hw answers ⟨1, rfl⟩
        (.inr ⟨_, rfl⟩)
      exact ⟨_, es, st', f⟩
    | offer event' =>
      refine Finishes.cons o at_ works hw (.inr ⟨_, rfl⟩) (fun k => ⟨k + 1, ?_⟩)
        fun o₁ at₁ => ih _ less o₁ at₁ (fun i => answers (i + 1)) rfl
      rw [List.range_succ_eq_map, List.map_cons, List.map_map]
      rfl

/-- **The call at the head of a line** comes to its end with any verdicts. -/
theorem finishes (o : Orderly st) {call : Call} (at_ : st.calls.get? id = some call)
    (first : (st.line call.walk.source).head? = some id) (lined : call.phase.lined = true)
    (answers : Nat → Pipeline.Verdict) :
    ∃ ls es st', Finishes s id call.walk.source answers st ls es st' := by
  obtain ⟨walk, phase⟩ := call
  cases phase with
  | arrived => exact absurd lined (by simp [Phase.lined])
  | found => exact absurd lined (by simp [Phase.lined])
  | offering event => exact finishes_offering o at_ answers
  | inLine =>
    have works : Works s st id ⟨walk, .inLine⟩ (.proceed id) _ _ := .proceed rfl first
    cases hw : (walk.resume s (st.last? walk.source)).halt with
    | done =>
      obtain ⟨es, st', f⟩ := Finishes.last o at_ works hw answers ⟨0, rfl⟩ (.inl rfl)
      exact ⟨_, es, st', f⟩
    | offer event =>
      exact Finishes.cons o at_ works hw (.inl rfl) (fun k => ⟨k, rfl⟩)
        fun o₁ at₁ => finishes_offering o₁ at₁ answers

/-! ## The line before a call -/

/-- A run goes on, and no call is dropped. -/
structure GoesOn (s : Settings) (h : History) (h' : History) (st' : State) : Prop where
  run : (machine s).Run (h ++ h') st'
  kept : ∀ m ∈ h', ∀ id, m.label ≠ .drop id

theorem GoesOn.trans {h' h'' : History} {st'' : State} (on : GoesOn s h h' st')
    (on' : GoesOn s (h ++ h') h'' st'') : GoesOn s h (h' ++ h'') st'' where
  run := by
    rw [← List.append_assoc]
    exact on'.run
  kept := by
    intro m hm
    rcases List.mem_append.mp hm with hm | hm
    · exact on.kept m hm
    · exact on'.kept m hm

/-- A call that comes to its end takes no other steps than work. -/
theorem Finishes.goesOn {answers : Nat → Pipeline.Verdict} {ls : List Label}
    (f : Finishes s id x answers st ls es st') {h' : History} (run' : (machine s).Run (h ++ h') st')
    (row : Machine.Row h' n ls es) : GoesOn s h h' st' where
  run := run'
  kept := by
    intro m hm id' hl
    rcases f.works _ (row.label_mem hm) with e | ⟨v, e⟩
    · exact absurd (hl.symm.trans e) (by simp)
    · exact absurd (hl.symm.trans e) (by simp)

/-- **The calls before a call** come to their end, and it stands at the head of the line. -/
theorem clears {call : Call} {behind : List CallId} : ∀ (before : List CallId) {h : History}
    {st : State}, (machine s).Run h st → st.calls.get? id = some call →
      st.line call.walk.source = before ++ id :: behind →
        ∃ h' st', GoesOn s h h' st' ∧ st'.calls.get? id = some call ∧
          (machine s).numberOf (h ++ h') id = (machine s).numberOf h id ∧
          st'.line call.walk.source = id :: behind
  | [], h, st, run, at_, line => by
    refine ⟨[], st, ⟨?_, by simp⟩, at_, ?_, line⟩
    · rwa [List.append_nil]
    · rw [List.append_nil]
  | a :: before, h, st, run, at_, line => by
    have o := orderly_of_run run
    have nodup := o.nodup call.walk.source
    rw [line, List.cons_append, List.nodup_cons] at nodup
    have other : id ≠ a := by
      rintro rfl
      exact nodup.1 (by simp)
    have inLine : a ∈ st.line call.walk.source := by
      rw [line]
      exact List.mem_cons_self
    obtain ⟨call', at', source, lined⟩ := o.mem_line.mp inLine
    have first : (st.line call'.walk.source).head? = some a := by
      rw [source, line]
      rfl
    obtain ⟨ls, es, st₁, f⟩ := finishes o at' first lined fun _ => .taken
    rw [source] at f
    obtain ⟨h₁, run₁, row, -, number⟩ := run.goes f.goes
    have line₁ : st₁.line call.walk.source = before ++ id :: behind := by
      rw [f.line, line, List.cons_append, List.erase_cons_head]
    obtain ⟨h', st', on, at_', number', line'⟩ :=
      clears before run₁ ((f.others id other).trans at_) line₁
    refine ⟨h₁ ++ h', st', (f.goesOn run₁ row).trans on, at_', ?_, line'⟩
    rw [← List.append_assoc, number', number]

/-! ## A call that comes in -/

/-- A call comes in, finds its stream or room for it, and joins the line. -/
theorem comes_in (o : Orderly st) {r : Request} (free : st.calls.get? id = none)
    (some : r.events ≠ []) (named : r.lacksSource = false)
    (room : r.source s ∉ st.streams.keys → st.streams.size < s.maxStreams) :
    ∃ st₁ st', step s st (.arrive id r) = .some (st₁, arrivalLines r) ∧
      (machine s).Goes id st₁ [.lookup id, .join id] [] st' ∧
      st'.calls.get? id = .some ⟨.start (r.source s) r.events, .inLine⟩ ∧
      st'.line (r.source s) = st.line (r.source s) ++ [id] := by
  obtain ⟨st₁, h₁, after₁⟩ := (Move.arrive (s := s) free some named).step
  have at₁ : st₁.calls.get? id = .some ⟨.start (r.source s) r.events, .arrived⟩ := by
    rw [after₁.calls]
    exact if_pos rfl
  have same : ∀ x, st₁.streams.get? x = st.streams.get? x := by
    intro x
    rw [after₁.streams]
    by_cases hx : x = r.source s
    · rw [if_pos hx, hx]
    · rw [if_neg hx]
  have keys : st₁.streams.keys = st.streams.keys := by
    rw [after₁.keys, if_neg]
    rintro ⟨old, new⟩
    exact new ((st.streams.mem_keys_iff _).mpr old)
  have room₁ : r.source s ∉ st₁.streams.keys → st₁.streams.size < s.maxStreams := by
    rw [keys, size_eq, keys, ← size_eq]
    exact room
  obtain ⟨st₂, h₂, after₂⟩ := (Move.find (s := s) at₁ rfl room₁).step
  have at₂ : st₂.calls.get? id = .some ⟨.start (r.source s) r.events, .found⟩ := by
    rw [after₂.calls]
    exact if_pos rfl
  obtain ⟨stream, hs⟩ := ((o.step h₁).step h₂).opened at₂ (by simp)
  have line₂ : stream.line = st.line (r.source s) := by
    have opened := (after₂.streams (r.source s)).trans (if_pos rfl)
    obtain rfl := Option.some.inj (hs.symm.trans opened)
    rw [State.line_eq, ← same]
    cases hx : st₁.streams.get? (r.source s) <;> simp [Walk.start, hx, Stream.new]
  obtain ⟨st₃, h₃, after₃⟩ := (Move.join (s := s) at₂ rfl).step
  refine ⟨st₁, st₃, h₁, goes_step h₂ rfl rfl (goes_step h₃ rfl rfl .stop), ?_, ?_⟩
  · rw [after₃.calls]
    exact if_pos rfl
  · rw [after₃.line]
    have : (st₂.streams.get? (r.source s)) = .some stream := hs
    simp [Left.line, Walk.start, this, line₂]

/-- A call that comes in where its source has a stream or room for one can be answered, with any
verdicts on its events, and has its outcome then. -/
def Answerable (s : Settings) (h : History) (st : State) : Prop :=
  ∀ id r, st.calls.get? id = none → r.events ≠ [] → r.lacksSource = false →
    (r.source s ∉ st.streams.keys → st.streams.size < s.maxStreams) →
      ∀ answers : Nat → Pipeline.Verdict, ∃ h' st', GoesOn s h h' st' ∧
        ∃ m ∈ h', ∃ reply last? k, .reply id reply ∈ m.effects ∧
          m.call = ((machine s).arrivals h).length ∧
          ((machine s).arrivals (h ++ h'))[m.call]? = some (id, r) ∧
          verdictsOf (h ++ h') m.call = (List.range k).map answers ∧
          Outcome s (h ++ h') m r last? reply

/-- A call at the head of its line, which has not set to work, is answered in the end. -/
theorem answered_of_waiting (run : (machine s).Run h st) {r : Request}
    (arrival : ((machine s).arrivals h)[(machine s).numberOf h id]? = some (id, r)) {walk : Walk}
    (at_ : st.calls.get? id = some ⟨walk, .inLine⟩)
    (first : (st.line walk.source).head? = some id) (answers : Nat → Pipeline.Verdict) :
    ∃ h' st', GoesOn s h h' st' ∧
      ∃ m ∈ h', ∃ reply last? k, .reply id reply ∈ m.effects ∧
        m.call = (machine s).numberOf h id ∧
        verdictsOf (h ++ h') m.call = (List.range k).map answers ∧
        Outcome s (h ++ h') m r last? reply := by
  obtain ⟨ls, es, st', f⟩ := finishes (orderly_of_run run) at_ first rfl answers
  obtain ⟨h', run', row, arrivals, -⟩ := run.goes f.goes
  obtain ⟨k, verdicts⟩ := f.verdicts
  obtain ⟨reply, hr⟩ := f.replies
  rw [← row.effects, List.mem_flatMap] at hr
  obtain ⟨m, hm, hr⟩ := hr
  obtain ⟨r', arrival', answered⟩ :=
    answers_of_run run' m (List.mem_append_right _ hm) id reply hr
  rw [arrivals, row.call m hm] at arrival'
  obtain rfl : r = r' := congrArg Prod.snd (Option.some.inj (arrival.symm.trans arrival'))
  obtain ⟨r', f'⟩ := follows_of_run run at_
  obtain rfl : r = r' := congrArg Prod.snd (Option.some.inj (arrival.symm.trans f'.arrival))
  -- A call that stands in line is not turned away any more.
  have outcome : ∃ last?, Outcome s (h ++ h') m r last? reply := by
    rcases answered with away | outcome
    · cases away with
      | empty none => exact absurd none f'.some
      | sourceless lacks => exact absurd (f'.named.symm.trans lacks) (by simp)
      | full refused _ _ =>
        obtain ⟨⟨id', hl⟩, -⟩ := refused
        rcases f.works _ (row.label_mem hm) with e | ⟨v, e⟩
        · exact absurd (hl.symm.trans e) (by simp)
        · exact absurd (hl.symm.trans e) (by simp)
    · exact outcome
  obtain ⟨last?, outcome⟩ := outcome
  obtain ⟨r', waits⟩ := waits_of_run run at_ (by simp)
  refine ⟨h', st', f.goesOn run' row, m, hm, reply, last?, k, hr, row.call m hm, ?_, outcome⟩
  rw [row.call m hm, verdictsOf, row.labelsOf, List.filterMap_append, verdicts, waits.labels]
  rfl

/-- A call comes in and stands in line. -/
theorem stands_in_line (run : (machine s).Run h st) {r : Request} (free : st.calls.get? id = none)
    (some : r.events ≠ []) (named : r.lacksSource = false)
    (room : r.source s ∉ st.streams.keys → st.streams.size < s.maxStreams) :
    ∃ h' st', GoesOn s h h' st' ∧
      st'.calls.get? id = .some ⟨.start (r.source s) r.events, .inLine⟩ ∧
      st'.line (r.source s) = st.line (r.source s) ++ [id] ∧
      (machine s).numberOf (h ++ h') id = ((machine s).arrivals h).length ∧
      ((machine s).arrivals (h ++ h'))[((machine s).arrivals h).length]? = .some (id, r) := by
  obtain ⟨st₁, st', arrives, goes, at_, line⟩ :=
    comes_in (orderly_of_run run) free some named room
  obtain ⟨h', run', row, arrivals, number⟩ :=
    run.arrives (M := machine s) (l := .arrive id r) arrives rfl goes
  refine ⟨_ :: h', st', ⟨run', fun m hm id' hl => ?_⟩, at_, line, number, ?_⟩
  · have mem := row.label_mem hm
    rw [hl] at mem
    exact absurd mem (by simp)
  · rw [arrivals]
    simp [Label.id]

theorem answerable_of_run (run : (machine s).Run h st) : Answerable s h st := by
  intro id r free some named room answers
  obtain ⟨h₁, st₁, on₁, at₁, line₁, number₁, arrival₁⟩ :=
    stands_in_line run free some named room
  obtain ⟨h₂, st₂, on₂, at₂, number₂, line₂⟩ := clears _ on₁.run at₁ line₁
  have first : (st₂.line (r.source s)).head? = .some id := by
    rw [show st₂.line (r.source s) = id :: [] from line₂]
    rfl
  have arrival₂ := Machine.arrivals_mono _ h₂ arrival₁
  rw [← number₁, ← number₂] at arrival₂
  obtain ⟨h₃, st₃, on₃, m, hm, reply, last?, k, hr, call, verdicts, outcome⟩ :=
    answered_of_waiting on₂.run arrival₂ at₂ first answers
  have number : m.call = ((machine s).arrivals h).length := call.trans (number₂.trans number₁)
  have whole : h ++ (h₁ ++ (h₂ ++ h₃)) = h ++ h₁ ++ h₂ ++ h₃ := by
    rw [← List.append_assoc, ← List.append_assoc]
  refine ⟨h₁ ++ (h₂ ++ h₃), st₃, on₁.trans (on₂.trans on₃), m, ?_, reply, last?, k, hr, number, ?_⟩
  · exact List.mem_append_right _ (List.mem_append_right _ hm)
  · rw [whole]
    refine ⟨?_, verdicts, outcome⟩
    rw [call]
    exact Machine.arrivals_mono _ h₃ arrival₂

/-- **The outcome of a call.** In every run a call that is answered is turned away, or it has
offered, and the pipeline has taken of it, what the reference says, and so does its answer; and a
call for which there is a stream or room for one can be answered. -/
theorem outcome_of_run (run : (machine s).Run h st) : Answers s h ∧ Answerable s h st :=
  ⟨answers_of_run run, answerable_of_run run⟩

/-- The sample: its second call offers both of its events, and the pipeline takes the second. -/
theorem outcome_sample : ∃ h st, (machine Sample.settings).play Sample.labels = some (h, st) ∧
    verdictsOf h 1 = [.failed .closed, .taken] ∧ Answers Sample.settings h ∧
    Answerable Sample.settings h st := by
  have played : ((machine Sample.settings).play Sample.labels).map (fun r => verdictsOf r.1 1) =
      some [.failed .closed, .taken] := by
    decide +kernel
  obtain ⟨⟨h, st⟩, hr, verdicts⟩ := Option.map_eq_some_iff.mp played
  obtain ⟨answers, answerable⟩ := outcome_of_run (Machine.run_of_play hr)
  exact ⟨h, st, hr, verdicts, answers, answerable⟩

end ChangeRelay.Dispatch
