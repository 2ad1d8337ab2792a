import ChangeRelay.Proofs.Dispatch.Line

/-!
# What a history of a dispatcher shows

The pipeline has the events that it took, in the order in which it took them (`pipeline`); each is
known by the number of its call and its place there. A rejected event is reported in the log with
its place.

* **`follows_of_run`**: a call in progress walks along the events it came in with.
* `submitted_of_run`: an event in the pipeline is the checked form of one that was submitted.
* **`ledger_of_run`**: every event of a call is decided once. The places taken and the places
  reported as rejected lie behind the walk of the call, no place is taken twice, and none is both.
-/

namespace ChangeRelay.Dispatch

abbrev History := List (Moment State Label Effect)

/-- An event in the pipeline. -/
structure Taken where
  /-- The number of the call that brought it. -/
  call : Nat
  /-- Its place in that call. -/
  index : Nat
  source : String
  event : Event

/-- Where it was submitted: the number of its call, and its place there. -/
def Taken.place (t : Taken) : Nat × Nat := (t.call, t.index)

/-- What the pipeline takes at a moment: the event on offer, if its verdict is so. -/
def taken? (m : Moment State Label Effect) : Option Taken :=
  match m.label with
  | .answer id .taken => match m.before.calls.get? id with
    | some ⟨w, .offering event⟩ => some ⟨m.call, w.tally.decided, w.source, event⟩
    | _ => none
  | _ => none

/-- What the pipeline took, in order. -/
def pipeline (h : History) : List Taken := h.filterMap taken?

/-- What it took of one source. -/
def reached (h : History) (x : String) : List Taken := (pipeline h).filter fun t => t.source = x

/-- What it took of one call. -/
def takenOf (h : History) (n : Nat) : List Taken := (pipeline h).filter fun t => t.call = n

/-- A step reports the rejection of an event. -/
def Reports (m : Moment State Label Effect) (r : Rejection) : Prop :=
  ∃ x, Effect.log (r.line x) ∈ m.effects

/-- A step decides the event in a place of its call. -/
def Decides (m : Moment State Label Effect) (index : Nat) : Prop :=
  (∃ t, taken? m = some t ∧ t.index = index) ∨ ∃ r, Reports m r ∧ r.index = index

/-- A call of the name `id` walks along the events of the request `r` that it came in with. -/
structure Follows (s : Settings) (h : History) (id : CallId) (call : Call) (r : Request) :
    Prop where
  arrival : ((machine s).arrivals h)[(machine s).numberOf h id]? = some (id, r)
  source : call.walk.source = r.source s
  along : call.walk.Along r.events
  /-- Before it works it has not decided anything. -/
  fresh : (∀ event, call.phase ≠ .offering event) → call.walk = .start (r.source s) r.events
  some : r.events ≠ []
  named : r.lacksSource = false

/-- What was submitted in a place. -/
structure Submitted (s : Settings) (h : History) (x : String) (t : Taken) (id : CallId)
    (r : Request) (e : Wire.Event) : Prop where
  arrival : ((machine s).arrivals h)[t.call]? = some (id, r)
  source : r.source s = x
  event : r.events[t.index]? = some e
  checked : e.check = .ok t.event

variable {s : Settings} {st st' : State} {l : Label} {left : Left} {es : List Effect}
variable {h : History}

@[simp] theorem machine_name (s : Settings) (l : Label) : (machine s).name l = l.id := rfl

@[simp] theorem machine_request? (s : Settings) (l : Label) :
    (machine s).request? l = l.request? := rfl

@[simp] theorem machine_busy (s : Settings) (st : State) (id : CallId) :
    (machine s).busy st id = st.calls.contains id := rfl

theorem busy_of_get? (s : Settings) {id : CallId} {call : Call}
    (at_ : st.calls.get? id = some call) : (machine s).busy st id = true := by
  simp [Table.contains, at_]

/-- The next moment of a history. -/
abbrev next (s : Settings) (h : History) (st : State) (l : Label) (es : List Effect) :
    Moment State Label Effect := (machine s).moment h st l es

/-! ## Calls and their requests -/

theorem Follows.next {id : CallId} {call : Call} {r : Request} (f : Follows s h id call r)
    (hl : l.request? = none ∨ id ≠ l.id) :
    Follows s (h ++ [next s h st l es]) id call r where
  arrival := by
    rw [Machine.numberOf_next id hl]
    exact Machine.arrivals_mono _ _ f.arrival
  source := f.source
  along := f.along
  fresh := f.fresh
  some := f.some
  named := f.named

theorem Follows.set {id : CallId} {call call' : Call} {r : Request} (f : Follows s h id call r)
    (source : call'.walk.source = call.walk.source) (along : call'.walk.Along r.events)
    (fresh : (∀ event, call'.phase ≠ .offering event) →
      call'.walk = .start (r.source s) r.events) : Follows s h id call' r :=
  ⟨f.arrival, source.trans f.source, along, fresh, f.some, f.named⟩

/-- The walk of a call that worked is still one along its events. -/
theorem Works.along (o : Orderly st) {id : CallId} {call : Call} {last? : Option UInt64}
    {w : Halted} (at_ : st.calls.get? id = some call) (works : Works s st id call l last? w)
    {events : List Wire.Event} (ha : call.walk.Along events) : w.walk.Along events := by
  rcases works.spec o at_ with ⟨hf, -, -⟩ | ⟨event, -, phase, hf, -⟩
  · exact hf.along ha
  · obtain ⟨walk, _⟩ := call
    simp only at phase
    subst phase
    obtain ⟨e, es, hw, -⟩ := o.offer at_
    exact hf.along (ha.taken hw)

/-- **A call in progress walks along the events it came in with.** -/
theorem follows_of_run (run : (machine s).Run h st) {id : CallId} {call : Call}
    (at_ : st.calls.get? id = some call) : ∃ r, Follows s h id call r := by
  induction run generalizing id call with
  | start => exact absurd at_ (by simp [machine, State.start])
  | @next h st st' l es run hs ih =>
    obtain ⟨left, m, after⟩ := step_move hs
    rw [after.calls] at at_
    by_cases hid : id = l.id
    · rw [if_pos hid] at at_
      subst hid
      cases m with
      | empty _ _ => exact absurd at_ (by simp)
      | sourceless _ _ _ => exact absurd at_ (by simp)
      | @arrive id r free some named =>
        obtain rfl := Option.some.inj at_
        exact ⟨r, Machine.arrivals_next_self (M := machine s) rfl, rfl, along_start _ _,
          fun _ => rfl, some, named⟩
      | find old phase _ =>
        obtain rfl := Option.some.inj at_
        obtain ⟨r, f⟩ := ih old
        refine ⟨r, (f.next (.inl rfl)).set rfl f.along fun _ => f.fresh fun event => ?_⟩
        rw [phase]
        exact fun e => absurd e (by simp)
      | refuse _ _ _ _ => exact absurd at_ (by simp)
      | join old phase =>
        obtain rfl := Option.some.inj at_
        obtain ⟨r, f⟩ := ih old
        refine ⟨r, (f.next (.inl rfl)).set rfl f.along fun _ => f.fresh fun event => ?_⟩
        rw [phase]
        exact fun e => absurd e (by simp)
      | drop _ => exact absurd at_ (by simp)
      | work old works =>
        have o := orderly_of_run run
        rw [works.label_id]
        obtain ⟨r, f⟩ := ih old
        refine ⟨r, (f.next (.inl works.request?_eq)).set ?_ ?_ fun hp => ?_⟩
        · rw [Halted.call?_walk at_, works.source o old]
        · rw [Halted.call?_walk at_]
          exact works.along o old f.along
        · obtain ⟨event, he⟩ := Halted.call?_phase at_
          exact absurd he (hp event)
    · rw [if_neg hid] at at_
      obtain ⟨r, f⟩ := ih at_
      exact ⟨r, f.next (.inr hid)⟩

/-! ## What a step decides -/

theorem taken?_spec {m : Moment State Label Effect} {t : Taken} (ht : taken? m = some t) :
    ∃ id w event, m.label = .answer id .taken ∧
      m.before.calls.get? id = some ⟨w, .offering event⟩ ∧
      t = ⟨m.call, w.tally.decided, w.source, event⟩ := by
  unfold taken? at ht
  split at ht
  · next id hl =>
    split at ht
    · next w event hc => exact ⟨id, w, event, hl, hc, (Option.some.inj ht).symm⟩
    · exact absurd ht (by simp)
  · exact absurd ht (by simp)

theorem pipeline_concat (h : History) (m : Moment State Label Effect) :
    pipeline (h ++ [m]) = pipeline h ++ (taken? m).toList := by
  unfold pipeline
  rw [List.filterMap_append]
  cases hm : taken? m <;> simp [hm]

theorem reached_concat (h : History) (m : Moment State Label Effect) (x : String) :
    reached (h ++ [m]) x = reached h x ++ (taken? m).toList.filter fun t => t.source = x := by
  unfold reached
  rw [pipeline_concat, List.filter_append]

theorem mem_reached {x : String} {t : Taken} : t ∈ reached h x ↔ t ∈ pipeline h ∧ t.source = x := by
  simp [reached]

theorem mem_pipeline {t : Taken} (ht : t ∈ pipeline h) : ∃ m ∈ h, taken? m = some t :=
  List.mem_filterMap.mp ht

theorem taken?_call {m : Moment State Label Effect} {t : Taken} (ht : taken? m = some t) :
    t.call = m.call := by
  obtain ⟨_, _, _, -, -, rfl⟩ := taken?_spec ht
  rfl

theorem line_inj {r r' : Rejection} {x x' : String} (e : r.line x = r'.line x') :
    r.index = r'.index := by
  simp only [Rejection.line, Log.Line.mk.injEq, List.cons.injEq, Prod.mk.injEq] at e
  exact decimal_inj e.2.2.2.2.1.2

theorem log_not_mem_wakes (line : List CallId) (id : CallId) (entry : Log.Line) :
    Effect.log entry ∉ wakes line id := by
  unfold wakes
  split <;> simp

/-- Only a call at work reports a rejection: one on the way of its walk. -/
theorem Move.reports (m : Move s st l left es) {n : Nat} {r : Rejection}
    (hr : Reports ⟨n, l, st, es⟩ r) :
    ∃ (call : Call) (last? : Option UInt64) (w : Halted), st.calls.get? l.id = some call ∧
      Works s st l.id call l last? w ∧ left.call? = w.call? ∧
      ∃ r' ∈ w.rejections, r'.index = r.index := by
  obtain ⟨x, hx⟩ := hr
  simp only at hx
  cases m with
  | empty _ _ =>
    refine absurd hx ?_
    cases ‹Request› <;> simp [emptyLines, Rejection.line]
  | sourceless _ _ _ => exact absurd hx (by simp [Rejection.line])
  | arrive _ _ _ =>
    refine absurd hx ?_
    cases ‹Request› <;> simp [arrivalLines, Rejection.line]
  | find _ _ _ => exact absurd hx (by simp)
  | refuse _ _ _ _ => exact absurd hx (by simp [Rejection.line])
  | join _ _ => exact absurd hx (by simp)
  | drop _ => exact absurd hx (log_not_mem_wakes _ _ _)
  | @work id call _ last? w at_ works =>
    refine ⟨call, last?, w, works.label_id ▸ at_, works.label_id.symm ▸ works, rfl, ?_⟩
    rw [Halted.effects, List.mem_append, List.mem_map] at hx
    rcases hx with ⟨r', hr', e⟩ | hx
    · exact ⟨r', hr', line_inj (Effect.log.inj e)⟩
    · cases hw : w.halt with
      | offer event => rw [hw] at hx; exact absurd hx (by simp)
      | done =>
        rw [hw] at hx
        simp only [List.mem_append, List.mem_singleton, reduceCtorEq, or_false] at hx
        exact absurd hx (log_not_mem_wakes _ _ _)

/-- An event is taken from the call at work that offers it. -/
theorem Move.takes (o : Orderly st) (m : Move s st l left es) {n : Nat} {t : Taken}
    (ht : taken? ⟨n, l, st, es⟩ = some t) :
    ∃ (walk : Walk) (event : Event) (last? : Option UInt64) (w : Halted),
      st.calls.get? l.id = some ⟨walk, .offering event⟩ ∧
      t = ⟨n, walk.tally.decided, walk.source, event⟩ ∧ left.source = walk.source ∧
      left.call? = w.call? ∧ left.last? = some event.sequence ∧
      w.From walk.taken last? := by
  obtain ⟨id, walk, event, hl, hc, rfl⟩ := taken?_spec ht
  simp only at hl hc
  subst hl
  cases m with
  | @work id' call _ last? w at_ works =>
    obtain rfl : id = id' := works.label_id
    obtain rfl := Option.some.inj (at_.symm.trans hc)
    rcases works.spec o at_ with ⟨-, -, hn⟩ | ⟨event', -, phase, hf, hlast⟩
    · exact absurd rfl hn
    · obtain rfl := Phase.offering.inj phase
      obtain ⟨stream, hs⟩ := o.opened at_ works.phase_ne
      exact ⟨walk, event, last?, w, hc, rfl, rfl, rfl, (left_last? w id last? hs).trans hlast, hf⟩

theorem decided_taken (w : Walk) : w.taken.tally.decided = w.tally.decided + 1 := by
  simp only [Walk.taken, Tally.decided, Tally.accept]
  omega

/-- Where a call at work stood, and where it stands. -/
theorem Works.decided (o : Orderly st) {id : CallId} {call : Call} {last? : Option UInt64}
    {w : Halted} (at_ : st.calls.get? id = some call) (works : Works s st id call l last? w) :
    call.walk.tally.decided ≤ w.walk.tally.decided ∧
      ∀ r ∈ w.rejections, call.walk.tally.decided ≤ r.index ∧ r.index < w.walk.tally.decided := by
  rcases works.spec o at_ with ⟨hf, -, -⟩ | ⟨event, -, -, hf, -⟩
  · exact ⟨by rw [hf.decided]; omega, fun r hr => hf.index_range hr⟩
  · have hd := decided_taken call.walk
    refine ⟨by rw [hf.decided]; omega, fun r hr => ?_⟩
    have := hf.index_range hr
    omega

/-- A call never goes back. -/
theorem Move.decided_le (o : Orderly st) (m : Move s st l left es) {call call' : Call}
    (old : st.calls.get? l.id = some call) (new : left.call? = some call') :
    call.walk.tally.decided ≤ call'.walk.tally.decided := by
  cases m with
  | empty _ _ => exact absurd new (by simp)
  | sourceless _ _ _ => exact absurd new (by simp)
  | arrive free _ _ => exact absurd (free.symm.trans old) (by simp)
  | find at_ _ _ =>
    obtain rfl := Option.some.inj new
    have same := Option.some.inj (at_.symm.trans old)
    exact Nat.le_of_eq (by rw [same])
  | refuse _ _ _ _ => exact absurd new (by simp)
  | join at_ _ =>
    obtain rfl := Option.some.inj new
    have same := Option.some.inj (at_.symm.trans old)
    exact Nat.le_of_eq (by rw [same])
  | drop _ => exact absurd new (by simp)
  | work at_ works =>
    rw [works.label_id] at old
    rw [← Option.some.inj (at_.symm.trans old), Halted.call?_walk new]
    exact (works.decided o at_).1

/-- **A step decides events from where its call stands**, and the call stands behind them then. -/
theorem Move.decides (o : Orderly st) (m : Move s st l left es) {n index : Nat}
    (hd : Decides ⟨n, l, st, es⟩ index) :
    ∃ call, st.calls.get? l.id = some call ∧ call.walk.tally.decided ≤ index ∧
      ∀ call', left.call? = some call' → index < call'.walk.tally.decided := by
  rcases hd with ⟨t, ht, rfl⟩ | ⟨r, hr, rfl⟩
  · obtain ⟨walk, event, last?, w, at_, rfl, -, hc, -, hf⟩ := m.takes o ht
    refine ⟨_, at_, Nat.le_refl _, fun call' new => ?_⟩
    have := decided_taken walk
    rw [Halted.call?_walk (hc ▸ new), hf.decided]
    simp only
    omega
  · obtain ⟨call, last?, w, at_, works, hc, r', hr', e⟩ := m.reports hr
    obtain ⟨-, hw⟩ := works.decided o at_
    refine ⟨call, at_, e ▸ (hw r' hr').1, fun call' new => ?_⟩
    rw [Halted.call?_walk (hc ▸ new), ← e]
    exact (hw r' hr').2

/-- What a step takes lies before what it rejects. -/
theorem Move.takes_lt_reports (o : Orderly st) (m : Move s st l left es) {n : Nat} {t : Taken}
    {r : Rejection} (ht : taken? ⟨n, l, st, es⟩ = some t) (hr : Reports ⟨n, l, st, es⟩ r) :
    t.index < r.index := by
  obtain ⟨id, walk, event, hl, hc, rfl⟩ := taken?_spec ht
  simp only at hl hc
  subst hl
  obtain ⟨call, last?, w, at_, works, -, r', hr', e⟩ := m.reports hr
  obtain rfl := Option.some.inj (at_.symm.trans hc)
  rcases works.spec o at_ with ⟨-, -, hn⟩ | ⟨_, -, -, hf, -⟩
  · exact absurd rfl hn
  · have hd := decided_taken walk
    have := (hf.index_range hr').1
    simp only at this ⊢
    omega

/-! ## What was submitted -/

theorem submitted_of_run (run : (machine s).Run h st) {t : Taken} (ht : t ∈ pipeline h) :
    ∃ id r e, Submitted s h t.source t id r e := by
  induction run with
  | start => exact absurd ht (by simp [pipeline])
  | @next h st st' l es run hs ih =>
    obtain ⟨left, m, after⟩ := step_move hs
    rw [pipeline_concat, List.mem_append, Option.mem_toList] at ht
    rcases ht with ht | ht
    · obtain ⟨id, r, e, hsub⟩ := ih ht
      exact ⟨id, r, e, Machine.arrivals_mono _ _ hsub.arrival, hsub.source, hsub.event,
        hsub.checked⟩
    · have o := orderly_of_run run
      obtain ⟨walk, event, last?, w, at_, ht', -⟩ := m.takes o ht
      obtain ⟨r, f⟩ := follows_of_run run at_
      obtain ⟨e, es, htodo, hex⟩ := o.offer at_
      have hr : (machine s).request? l = none := request?_eq_none hs at_
      have hn : t.call = (machine s).numberOf h l.id := by
        rw [ht']
        exact Machine.callOf_none hr
      refine ⟨l.id, r, e, ?_, ?_, ?_, ?_⟩
      · rw [hn]
        exact Machine.arrivals_mono _ _ f.arrival
      · rw [ht']
        exact f.source.symm
      · rw [ht']
        exact f.along.getElem? htodo
      · rw [ht']
        exact (check_of_examine hex).1

/-! ## Every event is decided once -/

/-- The places of events that were decided. -/
structure Ledger (s : Settings) (h : History) (st : State) : Prop where
  /-- They lie behind the walk of their call. -/
  behind : ∀ {id call}, st.calls.get? id = some call → ∀ m ∈ h,
    m.call = (machine s).numberOf h id → ∀ index, Decides m index →
      index < call.walk.tally.decided
  once : ((pipeline h).map Taken.place).Nodup
  apart : ∀ t ∈ pipeline h, ∀ m ∈ h, m.call = t.call → ∀ r, Reports m r → r.index ≠ t.index

/-- What is decided next lies behind everything decided before in the same call. -/
theorem Ledger.before (g : Ledger s h st) (run : (machine s).Run h st)
    (hs : step s st l = some (st', es)) {index : Nat} (hd : Decides (next s h st l es) index)
    {m : Moment State Label Effect} (hm : m ∈ h) (hc : m.call = (next s h st l es).call)
    {index' : Nat} (hd' : Decides m index') : index' < index := by
  obtain ⟨left, move, -⟩ := step_move hs
  obtain ⟨call, at_, hle, -⟩ := move.decides (orderly_of_run run) hd
  have hr : (machine s).request? l = none := request?_eq_none hs at_
  have := g.behind at_ m hm (hc.trans (Machine.callOf_none hr)) index' hd'
  omega

theorem Ledger.next_behind (g : Ledger s h st) (run : (machine s).Run h st)
    (hs : step s st l = some (st', es)) {id : CallId} {call : Call}
    (new : st'.calls.get? id = some call) :
    ∀ m ∈ h ++ [next s h st l es], m.call = (machine s).numberOf (h ++ [next s h st l es]) id →
      ∀ index, Decides m index → index < call.walk.tally.decided := by
  obtain ⟨left, move, after⟩ := step_move hs
  have o := orderly_of_run run
  intro m hm hc index hd
  rw [after.calls] at new
  rcases List.mem_append.mp hm with hm | hm
  · by_cases hid : id = l.id
    · subst hid
      rw [if_pos rfl] at new
      cases hr : (machine s).request? l with
      | some r =>
        have hlt := run.call_lt hm
        have e : (machine s).numberOf (h ++ [next s h st l es]) l.id = _ :=
          Machine.numberOf_next_self hr
        rw [hc, e] at hlt
        exact absurd hlt (Nat.lt_irrefl _)
      | none =>
        rw [Machine.numberOf_next _ (.inl hr)] at hc
        obtain ⟨old, at_⟩ := exists_call hs hr
        exact Nat.lt_of_lt_of_le (g.behind at_ m hm hc index hd) (move.decided_le o at_ new)
    · rw [if_neg hid] at new
      rw [Machine.numberOf_next id (.inr hid)] at hc
      exact g.behind new m hm hc index hd
  · obtain rfl := List.mem_singleton.mp hm
    by_cases hid : id = l.id
    · rw [if_pos hid] at new
      obtain ⟨_, -, -, hlt⟩ := move.decides o hd
      exact hlt call new
    · rw [if_neg hid] at new
      rw [Machine.numberOf_next id (.inr hid)] at hc
      exact absurd hc (run.callOf_ne hs (busy_of_get? s new) hid)

/-- **Every event of a call is decided once.** -/
theorem ledger_of_run (run : (machine s).Run h st) : Ledger s h st := by
  induction run with
  | start => exact ⟨by simp, by simp [pipeline], by simp [pipeline]⟩
  | @next h st st' l es run hs g =>
    have o := orderly_of_run run
    obtain ⟨left, move, -⟩ := step_move hs
    refine ⟨fun new => g.next_behind run hs new, ?_, ?_⟩
    · rw [pipeline_concat]
      cases ht : taken? (next s h st l es) with
      | none => simpa using g.once
      | some t =>
        rw [Option.toList_some, List.map_append, List.map_singleton, List.nodup_append]
        refine ⟨g.once, by simp, fun a ha b hb e => ?_⟩
        obtain rfl := List.mem_singleton.mp hb
        obtain ⟨t', ht', rfl⟩ := List.mem_map.mp ha
        obtain ⟨m, hm, hmt⟩ := mem_pipeline ht'
        obtain ⟨hcall, hindex⟩ := Prod.mk.inj e
        have := g.before run hs (.inl ⟨t, ht, rfl⟩) hm
          (((taken?_call hmt).symm.trans hcall).trans (taken?_call ht)) (.inl ⟨t', hmt, rfl⟩)
        omega
    · intro t ht m hm hc r hr
      rw [pipeline_concat, List.mem_append, Option.mem_toList] at ht
      rw [List.mem_append, List.mem_singleton] at hm
      rcases ht with ht | ht
      · rcases hm with hm | rfl
        · exact g.apart t ht m hm hc r hr
        · obtain ⟨m', hm', hmt⟩ := mem_pipeline ht
          have := g.before run hs (.inr ⟨r, hr, rfl⟩) hm'
            ((taken?_call hmt).symm.trans hc.symm) (.inl ⟨t, hmt, rfl⟩)
          omega
      · rcases hm with hm | rfl
        · have := g.before run hs (.inl ⟨t, ht, rfl⟩) hm (hc.trans (taken?_call ht))
            (.inr ⟨r, hr, rfl⟩)
          omega
        · have := move.takes_lt_reports o ht hr
          omega

/-! ## A sample -/

namespace Sample

/-- Two streams at most, and no event keeps the next one from its turn. -/
def settings : Settings := ⟨"d", .proceed, Duration.ofSeconds 1, 2⟩

def change (sequence : UInt64) (op : String) : Wire.Event :=
  { sequence, op, timestamp := 0, id := "n1", labels := [], properties := .empty,
    relationship := none }

/-- Calls 0 and 1 are of one source: 0 has two events rejected and is dropped with another on offer,
and 1 has one refused by the pipeline. Call 2 is of another source, and call 3 finds no room. -/
def labels : List Label :=
  [.arrive 0 (.batch ⟨"a", [change 5 "c", change 4 "u", change 6 "x", change 7 "u"], .empty⟩),
    .arrive 1 (.batch ⟨"a", [change 6 "u", change 8 "d"], .empty⟩),
    .lookup 0, .lookup 1, .join 0, .join 1, .arrive 2 (.single (change 9 "c")), .lookup 2,
    .join 2, .proceed 2, .proceed 0, .answer 0 .taken,
    .arrive 3 (.batch ⟨"b", [change 1 "c"], .empty⟩), .lookup 3, .drop 0, .proceed 1,
    .answer 1 (.failed .closed), .answer 2 .taken, .answer 1 .taken]

end Sample

end ChangeRelay.Dispatch
