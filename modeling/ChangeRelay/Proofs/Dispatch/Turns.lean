import ChangeRelay.Proofs.Dispatch.History
import Mathlib.Data.List.Induction

/-!
# Calls take turns

The calls on a source set to work one after the other, in the order in which they come to the head
of its line; `turns` are their numbers in that order. Between its turn and its end a call is at
work, and nobody else on its source is.

* **`turning_of_run`**: a call has its turn once, and the last turn is that of the call at work.
* **`blocks_of_run`**: what the pipeline took of a source is one block for each turn.
* **`block_of_run`**: a block is the checked form of some events of its call, in their order.
-/

namespace ChangeRelay.Dispatch

/-- Whose turn at `x` comes at a moment. -/
def turn? (x : String) (m : Moment State Label Effect) : Option Nat :=
  match m.label with
  | .proceed id => match m.before.calls.get? id with
    | some call => if call.walk.source = x then some m.call else none
    | none => none
  | _ => none

/-- The calls on `x` that set to work, in order. -/
def turns (h : History) (x : String) : List Nat := h.filterMap (turn? x)

/-- The call has had its turn at `x` and has not come to its end. -/
def Call.AtWork (x : String) (call : Call) : Prop :=
  call.walk.source = x ∧ ∃ event, call.phase = .offering event

/-- What was taken is the checked form of some of `events`, in their order. -/
def PartOf (ts : List Taken) (events : List Wire.Event) : Prop :=
  ∃ es : List Wire.Event, es.Sublist events ∧
    es.map Wire.Event.check = ts.map fun t => .ok t.event

/-- What a step is to the calls on `x`. -/
inductive Part (s : Settings) (st : State) (x : String) (l : Label) (left : Left)
    (es : List Effect) : Prop
  /-- It is not one of the call at work, before or after. -/
  | aside (turn : ∀ n, turn? x ⟨n, l, st, es⟩ = none)
      (old : ∀ call, st.calls.get? l.id = some call → ¬call.AtWork x)
      (new : ∀ call, left.call? = some call → ¬call.AtWork x)
  /-- A call sets to work. -/
  | begin {id : CallId} {call : Call} (label : l = .proceed id)
      (at_ : st.calls.get? id = some call) (source : call.walk.source = x)
      (phase : call.phase = .inLine) (first : (st.line x).head? = some id)
      (new : ∀ call, left.call? = some call → call.AtWork x)
  /-- The call at work goes on. -/
  | goOn {call : Call} (turn : ∀ n, turn? x ⟨n, l, st, es⟩ = none)
      (at_ : st.calls.get? l.id = some call) (work : call.AtWork x)
      (new : ∀ call, left.call? = some call → call.AtWork x)

/-- Who has had a turn at `x`. -/
structure Turning (s : Settings) (h : History) (st : State) (x : String) : Prop where
  lt : ∀ n ∈ turns h x, n < ((machine s).arrivals h).length
  once : (turns h x).Nodup
  /-- Of the calls in progress, the one at work. -/
  mem_iff : ∀ {id call}, st.calls.get? id = some call →
    ((machine s).numberOf h id ∈ turns h x ↔ call.AtWork x)
  /-- Its turn was the last. -/
  last : ∀ {id call}, st.calls.get? id = some call → call.AtWork x →
    (turns h x).getLast? = some ((machine s).numberOf h id)

variable {s : Settings} {st st' : State} {l : Label} {left : Left} {es : List Effect}
variable {h : History} {x : String}

theorem turns_concat (h : History) (m : Moment State Label Effect) (x : String) :
    turns (h ++ [m]) x = turns h x ++ (turn? x m).toList := by
  unfold turns
  rw [List.filterMap_append]
  cases hm : turn? x m <;> simp [hm]

theorem turns_aside (s : Settings) (h : History)
    (turn : ∀ n, turn? x ⟨n, l, st, es⟩ = none) :
    turns (h ++ [next s h st l es]) x = turns h x := by
  have hm : turn? x (next s h st l es) = none := turn _
  rw [turns_concat, hm, Option.toList_none, List.append_nil]

theorem turn?_eq_none (m : Moment State Label Effect) (hl : ∀ id, m.label ≠ .proceed id) :
    turn? x m = none := by
  unfold turn?
  split
  · next id h => exact absurd h (hl id)
  · rfl

theorem turn?_spec {m : Moment State Label Effect} {n : Nat} (hn : turn? x m = some n) :
    ∃ call, m.before.calls.get? m.label.id = some call ∧ call.walk.source = x ∧ n = m.call := by
  unfold turn? at hn
  split at hn
  · next id hl =>
    rw [hl]
    split at hn
    · next call hc =>
      split at hn
      · next hx => exact ⟨call, hc, hx, (Option.some.inj hn).symm⟩
      · exact absurd hn (by simp)
    · exact absurd hn (by simp)
  · exact absurd hn (by simp)

theorem turn?_other {m : Moment State Label Effect} {call : Call}
    (at_ : m.before.calls.get? m.label.id = some call) (hx : call.walk.source ≠ x) :
    turn? x m = none := by
  unfold turn?
  split
  · next id h =>
    rw [h] at at_
    simp only [Label.id] at at_
    simp only [at_, if_neg hx]
  · rfl

theorem turn?_proceed {m : Moment State Label Effect} {id : CallId} {call : Call}
    (hl : m.label = .proceed id) (at_ : m.before.calls.get? id = some call)
    (hx : call.walk.source = x) : turn? x m = some m.call := by
  unfold turn?
  simp only [hl, at_, if_pos hx]

theorem not_atWork {call : Call} (h : ∀ event, call.phase ≠ .offering event) :
    ¬call.AtWork x := by
  rintro ⟨-, event, he⟩
  exact h event he

/-- A call at work stands at the head of the line. -/
theorem Orderly.head (o : Orderly st) {id : CallId} {call : Call}
    (at_ : st.calls.get? id = some call) (work : call.AtWork x) :
    (st.line x).head? = some id := by
  obtain ⟨walk, phase⟩ := call
  obtain ⟨rfl, event, rfl⟩ := work
  exact o.first at_

/-- What work leaves of a call is at work. -/
theorem Works.atWork (o : Orderly st) {id : CallId} {call : Call} {last? : Option UInt64}
    {w : Halted} (at_ : st.calls.get? id = some call) (works : Works s st id call l last? w)
    {call' : Call} (new : w.call? = some call') : call'.AtWork call.walk.source := by
  refine ⟨?_, Halted.call?_phase new⟩
  rw [Halted.call?_walk new, works.source o at_]

theorem Move.part (o : Orderly st) (m : Move s st l left es) (x : String) :
    Part s st x l left es := by
  cases m with
  | empty free _ =>
    exact .aside (fun _ => turn?_eq_none _ fun _ => by simp)
      (fun call h => absurd (free.symm.trans h) (by simp)) fun call h => absurd h (by simp)
  | sourceless free _ _ =>
    exact .aside (fun _ => turn?_eq_none _ fun _ => by simp)
      (fun call h => absurd (free.symm.trans h) (by simp)) fun call h => absurd h (by simp)
  | arrive free _ _ =>
    refine .aside (fun _ => turn?_eq_none _ fun _ => by simp)
      (fun call h => absurd (free.symm.trans h) (by simp)) fun call h => ?_
    obtain rfl := Option.some.inj h
    exact not_atWork fun event => by simp
  | find at_ phase _ =>
    refine .aside (fun _ => turn?_eq_none _ fun _ => by simp) (fun call h => ?_) fun call h => ?_
    · rw [← Option.some.inj (at_.symm.trans h)]
      exact not_atWork fun event => by simp [phase]
    · obtain rfl := Option.some.inj h
      exact not_atWork fun event => by simp
  | refuse at_ phase _ _ =>
    refine .aside (fun _ => turn?_eq_none _ fun _ => by simp) (fun call h => ?_)
      fun call h => absurd h (by simp)
    rw [← Option.some.inj (at_.symm.trans h)]
    exact not_atWork fun event => by simp [phase]
  | join at_ phase =>
    refine .aside (fun _ => turn?_eq_none _ fun _ => by simp) (fun call h => ?_) fun call h => ?_
    · rw [← Option.some.inj (at_.symm.trans h)]
      exact not_atWork fun event => by simp [phase]
    · obtain rfl := Option.some.inj h
      exact not_atWork fun event => by simp
  | @drop id call at_ =>
    have turn : ∀ n, turn? x ⟨n, .drop id, st, wakes (st.line call.walk.source) id⟩ = none :=
      fun _ => turn?_eq_none _ fun _ => by simp
    by_cases work : call.AtWork x
    · exact .goOn turn at_ work fun call h => absurd h (by simp)
    · refine .aside turn (fun call' h => ?_) fun call h => absurd h (by simp)
      rw [← Option.some.inj (at_.symm.trans h)]
      exact work
  | @work id call _ last? w at_ works =>
    have new : ∀ call', w.call? = some call' → call'.AtWork call.walk.source := fun _ h =>
      works.atWork o at_ h
    by_cases hx : call.walk.source = x
    · subst hx
      cases works with
      | proceed phase first => exact .begin rfl at_ rfl phase first new
      | answer verdict phase =>
        exact .goOn (fun _ => turn?_eq_none _ fun _ => by simp) at_ ⟨rfl, _, phase⟩ new
    · rw [← works.label_id] at at_
      refine .aside (fun _ => turn?_other at_ hx) (fun call' h => ?_) fun call' h hw => ?_
      · rw [← Option.some.inj (at_.symm.trans h)]
        exact fun hw => hx hw.1
      · exact hx ((new call' h).1.symm.trans hw.1)

/-! ## Turns -/

/-- A call that is not at work on `x` before a step is not one of those that had a turn. -/
theorem Turning.callOf_not_mem (t : Turning s h st x) (hs : step s st l = some (st', es))
    (old : ∀ call, st.calls.get? l.id = some call → ¬call.AtWork x) :
    (machine s).callOf h l ∉ turns h x := by
  intro hm
  cases hr : (machine s).request? l with
  | some r =>
    have := t.lt _ hm
    rw [Machine.callOf_some hr] at this
    exact absurd this (Nat.lt_irrefl _)
  | none =>
    rw [Machine.callOf_none hr] at hm
    obtain ⟨call, at_⟩ := exists_call hs hr
    exact old call at_ ((t.mem_iff at_).mp hm)

theorem callOf_old (hs : step s st l = some (st', es)) {call : Call}
    (at_ : st.calls.get? l.id = some call) :
    (machine s).callOf h l = (machine s).numberOf h l.id :=
  Machine.callOf_none (request?_eq_none hs at_)

theorem arrivals_length_le (h : History) (m : Moment State Label Effect) :
    ((machine s).arrivals h).length ≤ ((machine s).arrivals (h ++ [m])).length := by
  rw [Machine.arrivals, Machine.arrivals, List.filterMap_append, List.length_append]
  exact Nat.le_add_right _ _

/-- Where no turn begins, only the call that takes the step has to be looked at. -/
theorem Turning.kept (t : Turning s h st x) (after : After st l.id left st')
    (same : turns (h ++ [next s h st l es]) x = turns h x)
    (mem : ∀ call, left.call? = some call →
      ((machine s).callOf h l ∈ turns h x ↔ call.AtWork x))
    (last : ∀ call, left.call? = some call → call.AtWork x →
      (turns h x).getLast? = some ((machine s).callOf h l)) :
    Turning s (h ++ [next s h st l es]) st' x := by
  have number : (machine s).numberOf (h ++ [next s h st l es]) l.id = (machine s).callOf h l :=
    Machine.numberOf_next_name
  refine ⟨?_, by rw [same]; exact t.once, ?_, ?_⟩
  · intro n hn
    rw [same] at hn
    exact Nat.lt_of_lt_of_le (t.lt n hn) (arrivals_length_le _ _)
  · intro id call hc
    rw [same]
    rw [after.calls] at hc
    by_cases hid : id = l.id
    · rw [if_pos hid] at hc
      rw [hid, number]
      exact mem call hc
    · rw [if_neg hid] at hc
      rw [Machine.numberOf_next id (.inr hid)]
      exact t.mem_iff hc
  · intro id call hc work
    rw [same]
    rw [after.calls] at hc
    by_cases hid : id = l.id
    · rw [if_pos hid] at hc
      rw [hid, number]
      exact last call hc work
    · rw [if_neg hid] at hc
      rw [Machine.numberOf_next id (.inr hid)]
      exact t.last hc work

/-- The turn of a call begins, and nobody was at work. -/
theorem Turning.begin (t : Turning s h st x) (run : (machine s).Run h st) {id : CallId}
    (after : After st id left st') {call : Call} (at_ : st.calls.get? id = some call)
    (source : call.walk.source = x) (phase : call.phase = .inLine)
    (first : (st.line x).head? = some id)
    (new : ∀ call, left.call? = some call → call.AtWork x) :
    Turning s (h ++ [next s h st (.proceed id) es]) st' x := by
  have more : turns (h ++ [next s h st (.proceed id) es]) x =
      turns h x ++ [(machine s).numberOf h id] := by
    rw [turns_concat, turn?_proceed rfl at_ source]
    rfl
  have fresh : (machine s).numberOf h id ∉ turns h x := fun hm =>
    not_atWork (by simp [phase]) ((t.mem_iff at_).mp hm)
  have other : ∀ {id' call'}, id' ≠ id → st'.calls.get? id' = some call' →
      st.calls.get? id' = some call' := by
    intro id' call' hid hc
    rw [after.calls, if_neg hid] at hc
    exact hc
  refine ⟨?_, ?_, ?_, ?_⟩
  · intro n hm
    rw [more, List.mem_append, List.mem_singleton] at hm
    rcases hm with hm | rfl
    · exact Nat.lt_of_lt_of_le (t.lt n hm) (arrivals_length_le _ _)
    · exact Nat.lt_of_lt_of_le (run.number_lt (busy_of_get? s at_)) (arrivals_length_le _ _)
  · rw [more, List.nodup_append]
    refine ⟨t.once, by simp, fun a ha b hb => ?_⟩
    rintro rfl
    exact fresh (List.mem_singleton.mp hb ▸ ha)
  · intro id' call' hc
    rw [more, List.mem_append, List.mem_singleton, Machine.numberOf_next id' (.inl rfl)]
    by_cases hid : id' = id
    · rw [after.calls, if_pos hid] at hc
      exact iff_of_true (.inr (by rw [hid])) (new call' hc)
    · have hc := other hid hc
      rw [← t.mem_iff hc]
      refine or_iff_left fun e => hid ?_
      exact run.number_inj (busy_of_get? s hc) (busy_of_get? s at_) e
  · intro id' call' hc work
    rw [more, List.getLast?_concat, Machine.numberOf_next id' (.inl rfl)]
    by_cases hid : id' = id
    · rw [hid]
    · have head := (orderly_of_run run).head (other hid hc) work
      exact absurd (Option.some.inj (head.symm.trans first)) hid

theorem Turning.step (t : Turning s h st x) (run : (machine s).Run h st)
    (hs : step s st l = some (st', es)) : Turning s (h ++ [next s h st l es]) st' x := by
  obtain ⟨left, m, after⟩ := step_move hs
  cases m.part (orderly_of_run run) x with
  | aside turn old new =>
    refine t.kept after (turns_aside s h turn) (fun call hc => ?_) fun call hc work => ?_
    · exact iff_of_false (t.callOf_not_mem hs old) (new call hc)
    · exact absurd work (new call hc)
  | begin label at_ source phase first new =>
    subst label
    exact t.begin run after at_ source phase first new
  | goOn turn at_ work new =>
    refine t.kept after (turns_aside s h turn) (fun call hc => ?_) fun call _ _ => ?_
    · rw [callOf_old hs at_]
      exact iff_of_true ((t.mem_iff at_).mpr work) (new call hc)
    · rw [callOf_old hs at_]
      exact t.last at_ work

/-- **A call has its turn once**, and the last turn is that of the call at work. -/
theorem turning_of_run (run : (machine s).Run h st) (x : String) : Turning s h st x := by
  induction run with
  | start =>
    refine ⟨by simp [turns], by simp [turns], ?_, ?_⟩
    · intro id call hc
      exact absurd hc (by simp [machine, State.start])
    · intro id call hc
      exact absurd hc (by simp [machine, State.start])
  | next run hs ih => exact ih.step run hs

/-! ## Blocks -/

theorem takenOf_concat (h : History) (m : Moment State Label Effect) (n : Nat) :
    takenOf (h ++ [m]) n = takenOf h n ++ if m.call = n then (taken? m).toList else [] := by
  unfold takenOf
  rw [pipeline_concat, List.filter_append]
  cases ht : taken? m with
  | none => simp
  | some t =>
    have hc := taken?_call ht
    by_cases hn : m.call = n
    · simp [hc, hn]
    · simp [hc, hn]

theorem takenOf_other {m : Moment State Label Effect} {n : Nat} (hn : m.call ≠ n) :
    takenOf (h ++ [m]) n = takenOf h n := by
  rw [takenOf_concat, if_neg hn, List.append_nil]

/-- A step of a call without a turn leaves the blocks of the others. -/
theorem flatMap_takenOf {m : Moment State Label Effect} {ns : List Nat} (hn : m.call ∉ ns) :
    ns.flatMap (takenOf (h ++ [m])) = ns.flatMap (takenOf h) :=
  List.flatMap_congr fun _ hk => takenOf_other fun e => hn (e ▸ hk)

theorem pipeline_concat_none {m : Moment State Label Effect} (hm : taken? m = none) :
    pipeline (h ++ [m]) = pipeline h := by
  rw [pipeline_concat, hm, Option.toList_none, List.append_nil]

theorem takenOf_concat_none {m : Moment State Label Effect} (hm : taken? m = none) :
    takenOf (h ++ [m]) = takenOf h := by
  funext n
  rw [takenOf, takenOf, pipeline_concat_none hm]

theorem reached_concat_none {m : Moment State Label Effect} (hm : taken? m = none) (x : String) :
    reached (h ++ [m]) x = reached h x := by
  rw [reached, reached, pipeline_concat_none hm]

theorem reached_concat_other {m : Moment State Label Effect}
    (hm : ∀ t, taken? m = some t → t.source ≠ x) : reached (h ++ [m]) x = reached h x := by
  rw [reached_concat]
  cases ht : taken? m with
  | none => simp
  | some t => simp [hm t ht]

/-- Nothing is taken of a call before its turn. -/
theorem takenOf_waiting (run : (machine s).Run h st) {id : CallId} {call : Call}
    (at_ : st.calls.get? id = some call) (waits : ∀ event, call.phase ≠ .offering event) :
    takenOf h ((machine s).numberOf h id) = [] := by
  unfold takenOf
  rw [List.filter_eq_nil_iff]
  intro t ht hn
  rw [decide_eq_true_eq] at hn
  obtain ⟨m, hm, htaken⟩ := mem_pipeline ht
  obtain ⟨r, f⟩ := follows_of_run run at_
  have := (ledger_of_run run).behind at_ m hm ((taken?_call htaken).symm.trans hn) t.index
    (.inl ⟨t, htaken, rfl⟩)
  rw [f.fresh waits] at this
  exact absurd this (by simp [Walk.start, Tally.start, Tally.decided])

/-- What is taken is taken from the call at work on its source. -/
theorem taken?_atWork {m : Moment State Label Effect} {t : Taken} (ht : taken? m = some t) :
    ∃ call, m.before.calls.get? m.label.id = some call ∧ call.AtWork t.source := by
  obtain ⟨id, w, event, hl, hc, rfl⟩ := taken?_spec ht
  rw [hl]
  exact ⟨_, hc, rfl, event, rfl⟩

/-- **The pipeline has one block for each turn**: what it took of a source is what it took of one
call after the other, in the order of their turns. -/
theorem blocks_of_run (run : (machine s).Run h st) (x : String) :
    reached h x = (turns h x).flatMap (takenOf h) := by
  induction run with
  | start => rfl
  | @next h st st' l es run hs ih =>
    obtain ⟨left, move, -⟩ := step_move hs
    have t := turning_of_run run x
    cases move.part (orderly_of_run run) x with
    | aside turn old new =>
      have elsewhere : ∀ a, taken? (next s h st l es) = some a → a.source ≠ x := by
        rintro a ha rfl
        obtain ⟨call, at_, work⟩ := taken?_atWork ha
        exact old call at_ work
      have hn : (next s h st l es).call ∉ turns h x := t.callOf_not_mem hs old
      rw [turns_aside s h turn, reached_concat_other elsewhere, flatMap_takenOf hn, ih]
    | @begin id call label at_ source phase first new =>
      subst label
      have hm : taken? (next s h st (.proceed id) es) = none := rfl
      rw [turns_concat, turn?_proceed rfl at_ source, reached_concat_none hm,
        takenOf_concat_none hm, Option.toList_some, List.flatMap_append, ih]
      have : takenOf h (next s h st (.proceed id) es).call = [] :=
        takenOf_waiting run at_ (by simp [phase])
      simp [this]
    | @goOn call turn at_ work new =>
      rw [turns_aside s h turn]
      cases ht : taken? (next s h st l es) with
      | none => rw [reached_concat_none ht, takenOf_concat_none ht, ih]
      | some a =>
        obtain ⟨call', at_', work'⟩ := taken?_atWork ht
        obtain rfl := Option.some.inj (at_.symm.trans at_')
        obtain rfl := work.1.symm.trans work'.1
        -- The call at work had the last turn, so its block is the last one and grows by `a`.
        obtain ⟨pre, hpre⟩ := List.getLast?_eq_some_iff.mp (t.last at_ work)
        have hn : (next s h st l es).call = (machine s).numberOf h l.id := callOf_old hs at_
        have fresh : (next s h st l es).call ∉ pre := by
          have := t.once
          rw [hpre, List.nodup_append] at this
          exact fun hm => this.2.2 _ hm _ (List.mem_singleton_self _) hn
        rw [hpre] at ih ⊢
        rw [List.flatMap_append] at ih ⊢
        rw [flatMap_takenOf fresh, List.flatMap_singleton, takenOf_concat, if_pos hn, ht,
          ← List.append_assoc, reached_concat, ih, ht]
        simp

/-- The events of a call are taken in their order. -/
theorem ordered_takenOf (run : (machine s).Run h st) (n : Nat) :
    (takenOf h n).Pairwise fun a b => a.index < b.index := by
  induction run with
  | start => exact .nil
  | @next h st st' l es run hs ih =>
    rw [takenOf_concat]
    by_cases hn : (next s h st l es).call = n
    · rw [if_pos hn, List.pairwise_append]
      refine ⟨ih, (taken? _).pairwise_toList, fun a ha b hb => ?_⟩
      rw [Option.mem_toList] at hb
      obtain ⟨ha, hc⟩ := List.mem_filter.mp ha
      rw [decide_eq_true_eq] at hc
      obtain ⟨m, hm, hma⟩ := mem_pipeline ha
      exact (ledger_of_run run).before run hs (.inl ⟨b, hb, rfl⟩) hm
        (((taken?_call hma).symm.trans hc).trans hn.symm) (.inl ⟨a, hma, rfl⟩)
    · rw [if_neg hn, List.append_nil]
      exact ih

/-- Events at places in order are a part of their list, in its order. -/
theorem sublist_of_places {ts : List Taken} (ordered : ts.Pairwise fun a b => a.index < b.index)
    {events : List Wire.Event}
    (places : ∀ t ∈ ts, ∃ e, events[t.index]? = some e ∧ e.check = .ok t.event) :
    PartOf ts events := by
  induction ts using List.reverseRecOn generalizing events with
  | nil => exact ⟨[], List.nil_sublist _, rfl⟩
  | append_singleton ts t ih =>
    obtain ⟨before, -, lt⟩ := List.pairwise_append.mp ordered
    obtain ⟨e, he, hc⟩ := places t (by simp)
    have earlier : ∀ a ∈ ts, ∃ e, (events.take t.index)[a.index]? = some e ∧
        e.check = .ok a.event := by
      intro a ha
      rw [List.getElem?_take_of_lt (lt a ha t (by simp))]
      exact places a (List.mem_append_left _ ha)
    obtain ⟨es, hes, hmap⟩ := ih before earlier
    refine ⟨es ++ [e], ?_, by rw [List.map_append, List.map_append, hmap]; simp [hc]⟩
    have : events.take (t.index + 1) = events.take t.index ++ [e] := by
      rw [List.take_add_one, he, Option.toList_some]
    exact (this ▸ hes.append (List.Sublist.refl [e])).trans (List.take_sublist _ _)

/-- **A block is the checked form of some of the events of its call**, in their order. -/
theorem block_of_run (run : (machine s).Run h st) {n : Nat} {id : CallId} {r : Request}
    (arrival : ((machine s).arrivals h)[n]? = some (id, r)) :
    PartOf (takenOf h n) r.events := by
  refine sublist_of_places (ordered_takenOf run n) fun t ht => ?_
  obtain ⟨ht, hn⟩ := List.mem_filter.mp ht
  rw [decide_eq_true_eq] at hn
  obtain ⟨id', r', e, sub⟩ := submitted_of_run run ht
  have := sub.arrival
  rw [hn, arrival] at this
  obtain rfl := (Prod.mk.inj (Option.some.inj this)).2
  exact ⟨e, sub.event, sub.checked⟩

end ChangeRelay.Dispatch
