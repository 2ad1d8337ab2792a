import ChangeRelay.Proofs.Dispatch.Cutting
import ChangeRelay.Proofs.Dispatch.Totals

/-!
# What the calls have decided

The events of a call are taken or rejected one after the other, so a history shows how far a call
has come: `takenOf` has what was taken of it, and `rejectedOf` counts what was rejected. While the
call is in progress this is what its tally says. What is known of a call when it takes a step is its
`Entry`, also where the step is its last one.

* **`going_of_run`**: a call in progress has decided what its tally says.
* `entry_of_run`: the entry of the call that takes the next step.
* **`decided_of_run`**: a call decides no more events than it came in with.
-/

namespace ChangeRelay.Dispatch

/-- How many events a call came in with. -/
def brought (s : Settings) (h : History) (n : Nat) : Nat :=
  (((machine s).arrivals h)[n]?.map fun a => a.2.events.length).getD 0

/-- How many events of a call were rejected. -/
def rejectedOf (h : History) (n : Nat) : Nat :=
  ((h.filter fun m => m.call = n).map rejects).sum

variable {s : Settings} {st st' : State} {l : Label} {left : Left} {es : List Effect}
variable {h : History} {n : Nat} {m : Moment State Label Effect}

/-! ## What a moment adds -/

theorem rejectedOf_concat (h : History) (m : Moment State Label Effect) (n : Nat) :
    rejectedOf (h ++ [m]) n = rejectedOf h n + if m.call = n then rejects m else 0 := by
  rw [rejectedOf, List.filter_append, List.map_append, List.sum_append]
  by_cases hn : m.call = n <;> simp [rejectedOf, hn]

theorem rejectedOf_other (hn : m.call ≠ n) : rejectedOf (h ++ [m]) n = rejectedOf h n := by
  rw [rejectedOf_concat, if_neg hn, Nat.add_zero]

theorem rejectedOf_self (hn : m.call = n) :
    rejectedOf (h ++ [m]) n = rejectedOf h n + rejects m := by
  rw [rejectedOf_concat, if_pos hn]

theorem brought_of_arrival {id : CallId} {r : Request}
    (arrival : ((machine s).arrivals h)[n]? = some (id, r)) : brought s h n = r.events.length := by
  rw [brought, arrival]
  rfl

theorem brought_le (s : Settings) (h : History) (m : Moment State Label Effect) (n : Nat) :
    brought s h n ≤ brought s (h ++ [m]) n := by
  cases hn : ((machine s).arrivals h)[n]? with
  | none =>
    rw [brought, hn]
    exact Nat.zero_le _
  | some a =>
    rw [brought_of_arrival hn, brought_of_arrival (Machine.arrivals_mono h [m] hn)]

/-- What is known of a call that has come in stays known. -/
theorem brought_kept {id : CallId} {r : Request} (m : Moment State Label Effect)
    (arrival : ((machine s).arrivals h)[n]? = some (id, r)) :
    brought s (h ++ [m]) n = brought s h n := by
  rw [brought_of_arrival arrival, brought_of_arrival (Machine.arrivals_mono h [m] arrival)]

/-! ## What the calls have decided -/

/-- The call `n` has decided what a tally says. -/
structure Tallied (h : History) (n : Nat) (t : Tally) : Prop where
  taken : (takenOf h n).length = t.processed
  rejected : rejectedOf h n = t.rejected

theorem Tallied.other {t : Tally} (tallied : Tallied h n t) (hn : m.call ≠ n) :
    Tallied (h ++ [m]) n t where
  taken := by rw [takenOf_other hn, tallied.taken]
  rejected := by rw [rejectedOf_other hn, tallied.rejected]

/-- The call takes a step, at which `k` events are rejected. -/
theorem Tallied.self {t t' : Tally} {k : Nat} (tallied : Tallied h n t) (hn : m.call = n)
    (now : rejects m = k) (taken : t'.processed = t.processed + (taken? m).toList.length)
    (rejected : t'.rejected = t.rejected + k) : Tallied (h ++ [m]) n t' where
  taken := by rw [takenOf_self hn, List.length_append, tallied.taken, taken]
  rejected := by rw [rejectedOf_self hn, tallied.rejected, now, rejected]

/-- A call that has not come in has decided nothing. -/
theorem tallied_fresh (run : (machine s).Run h st) (fresh : ((machine s).arrivals h).length ≤ n)
    (total : Nat) : Tallied h n (.start total) where
  taken := by
    rw [takenOf, List.filter_eq_nil_iff.mpr]
    · rfl
    · intro t ht hn
      obtain ⟨m, hm, taken⟩ := mem_pipeline ht
      have lt := run.call_lt hm
      rw [decide_eq_true_eq, taken?_call taken] at hn
      omega
  rejected := by
    rw [rejectedOf, List.filter_eq_nil_iff.mpr]
    · rfl
    · intro m hm hn
      have lt := run.call_lt hm
      rw [decide_eq_true_eq] at hn
      omega

/-- What is known, behind a step, of the call that took it: it has decided what `t` says. -/
structure Entry (s : Settings) (h : History) (m : Moment State Label Effect) (call? : Option Call)
    (t : Tally) : Prop where
  tallied : Tallied h m.call t
  le : t.decided ≤ brought s h m.call
  /-- In progress it keeps the tally, and under `abort` it has no event rejected. -/
  going : ∀ call, call? = some call →
    t = call.walk.tally ∧ (s.failurePolicy = .abort → t.rejected = 0)
  told : ∀ a ∈ m.effects.filterMap Effect.told?, a.2.processed = UInt64.ofNat t.processed
  /-- An answered call leaves events behind the first rejected one only. -/
  aborted : answers m.effects = true → t.decided < brought s h m.call →
    s.failurePolicy = .abort ∧ t.rejected = 1

/-- A call that is turned away has all its events rejected. -/
theorem Entry.away {t : Tally} {id : CallId} {reply : DispatchReply}
    (tallied : Tallied h m.call t) (told : m.effects.filterMap Effect.told? = [(id, reply)])
    (zero : reply.processed = 0) (none : t.processed = 0)
    (all : t.decided = brought s h m.call) : Entry s h m .none t where
  tallied := tallied
  le := all.le
  going call e := absurd e (by simp)
  told a ha := by
    rw [told] at ha
    rw [List.mem_singleton.mp ha, zero, none]
    rfl
  aborted _ lt := absurd all (Nat.ne_of_lt lt)

/-- A call goes on, or is dropped, that has decided no more. -/
theorem Entry.aside {t : Tally} {call? : Option Call} (tallied : Tallied h m.call t)
    (le : t.decided ≤ brought s h m.call)
    (going : ∀ call, call? = some call →
      t = call.walk.tally ∧ (s.failurePolicy = .abort → t.rejected = 0))
    (quiet : m.effects.filterMap Effect.told? = []) : Entry s h m call? t where
  tallied := tallied
  le := le
  going := going
  told a ha := by
    rw [quiet] at ha
    exact absurd ha (by simp)
  aborted answer := absurd quiet (answers_iff.mp answer)

/-- What a call in progress has decided. -/
structure Going (s : Settings) (h : History) (id : CallId) (call : Call) : Prop where
  tallied : Tallied h ((machine s).numberOf h id) call.walk.tally
  clean : s.failurePolicy = .abort → call.walk.tally.rejected = 0

theorem Works.obeys {id : CallId} {call : Call} {last? : Option UInt64} {w : Halted}
    (works : Works s st id call l last? w) : w.Obeys s.failurePolicy := by
  cases works with
  | proceed _ _ => exact advance_obeys _ _ _
  | answer verdict _ => exact settle_obeys _ _ _ _ _

/-- What a call at work decides. -/
theorem Works.tally (o : Orderly st) {id : CallId} {call : Call} {last? : Option UInt64}
    {w : Halted} (at_ : st.calls.get? id = some call) (works : Works s st id call l last? w)
    (n : Nat) (es : List Effect) :
    w.walk.tally.processed = call.walk.tally.processed + (taken? ⟨n, l, st, es⟩).toList.length ∧
      w.walk.tally.rejected = call.walk.tally.rejected + w.rejections.length := by
  rcases works.spec o at_ with ⟨hf, -, other⟩ | ⟨event, rfl, phase, hf, -⟩
  · have none : taken? ⟨n, l, st, es⟩ = none := by
      cases works with
      | proceed _ _ => rfl
      | answer verdict _ =>
        cases verdict with
        | taken => exact absurd rfl other
        | failed fault => rfl
    rw [none]
    exact ⟨hf.processed, hf.rejected⟩
  · obtain ⟨walk, _⟩ := call
    simp only at phase
    subst phase
    refine ⟨hf.processed.trans ?_, hf.rejected⟩
    simp only [taken?, at_]
    rfl

/-- The entry of a call at work. -/
theorem Entry.work (run : (machine s).Run h st) {id : CallId} {call : Call} {last? : Option UInt64}
    {w : Halted} {line : List CallId} (hs : step s st l = some (st', w.effects id line))
    (at_ : st.calls.get? id = some call) (works : Works s st id call l last? w)
    (going : Going s h id call) :
    Entry s (h ++ [next s h st l (w.effects id line)]) (next s h st l (w.effects id line)) w.call?
      w.walk.tally := by
  have o := orderly_of_run run
  obtain ⟨r, f⟩ := follows_of_run run at_
  have own : (next s h st l (w.effects id line)).call = (machine s).numberOf h id := by
    have old := callOf_old (h := h) hs (works.label_id.symm ▸ at_)
    rwa [works.label_id] at old
  have along := works.along o at_ f.along
  obtain ⟨processed, rejected⟩ := works.tally o at_ ((machine s).callOf h l) (w.effects id line)
  have tallied : Tallied (h ++ [next s h st l (w.effects id line)])
      ((machine s).numberOf h id) w.walk.tally :=
    going.tallied.self own (works.rejects _ _) processed rejected
  have all : brought s (h ++ [next s h st l (w.effects id line)]) ((machine s).numberOf h id) =
      r.events.length := brought_of_arrival (Machine.arrivals_mono _ _ f.arrival)
  rw [← own] at tallied all
  refine ⟨tallied, all ▸ along.decided_le, ?_, ?_, ?_⟩
  · intro call' new
    have same := Halted.call?_walk new
    obtain ⟨event, offer⟩ := Halted.call?_phase new
    refine ⟨by rw [same], fun abort => ?_⟩
    rw [rejected, going.clean abort]
    obtain ⟨walk, phase⟩ := call'
    simp only at offer
    subst offer
    rw [works.obeys.offer abort event (Halted.halt_of_call? new).2]
    rfl
  · intro a ha
    rw [(Halted.told_mem ha).2, reply_processed]
  · intro answer lt
    obtain ⟨a, ha⟩ := List.exists_mem_of_ne_nil _ (answers_iff.mp answer)
    have some : w.walk.todo ≠ [] := by
      rw [along.todo, ne_eq, List.drop_eq_nil_iff, ← all]
      exact Nat.not_le.mpr lt
    obtain ⟨abort, one⟩ := works.obeys.left (Halted.told_mem ha).1 some
    exact ⟨abort, by rw [rejected, going.clean abort, one]⟩

/-- A call comes in. -/
theorem Entry.arrive (run : (machine s).Run h st) {id : CallId} {r : Request}
    (hs : step s st (.arrive id r) = some (st', es)) (move : Move s st (.arrive id r) left es) :
    ∃ t, Entry s (h ++ [next s h st (.arrive id r) es]) (next s h st (.arrive id r) es)
      left.call? t := by
  have hr : (machine s).request? (.arrive id r) = some r := rfl
  have own : (next s h st (.arrive id r) es).call = ((machine s).arrivals h).length :=
    Machine.callOf_some hr
  have fresh := tallied_fresh run (Nat.le_of_eq own.symm) r.events.length
  have all : brought s (h ++ [next s h st (.arrive id r) es]) (next s h st (.arrive id r) es).call =
      r.events.length := brought_of_arrival (Machine.arrivals_next hr)
  cases move with
  | empty _ none =>
    have tallied := fresh.self rfl (rejects_empty none _) rfl rfl
    have told : (emptyLines r ++ [Effect.reply id emptyReply]).filterMap Effect.told? =
        [(id, emptyReply)] := by
      rw [List.filterMap_append, told_emptyLines]
      rfl
    refine ⟨.start r.events.length, .away tallied told rfl rfl ?_⟩
    rw [all, none]
    rfl
  | sourceless _ _ lacks =>
    have tallied : Tallied _ _ ⟨r.events.length, 0, r.events.length, none⟩ :=
      fresh.self rfl (rejects_sourceless (by decide) _) rfl (Nat.zero_add _).symm
    refine ⟨_, .away tallied rfl rfl rfl ?_⟩
    rw [all]
    exact Nat.zero_add _
  | arrive _ _ _ =>
    have tallied := fresh.self rfl (rejects_arrive _) rfl rfl
    refine ⟨.start r.events.length, .aside tallied ?_ ?_ ?_⟩
    · exact Nat.zero_le _
    · intro call e
      obtain rfl := Option.some.inj e
      exact ⟨rfl, fun _ => rfl⟩
    · exact told_arrivalLines r
  | work _ works => cases works

/-- A call in progress decides nothing. -/
theorem Entry.still (run : (machine s).Run h st) (hs : step s st l = some (st', es)) {call : Call}
    (at_ : st.calls.get? l.id = some call) (going : Going s h l.id call) {call? : Option Call}
    (same : ∀ call', call? = some call' → call'.walk = call.walk)
    (silent : taken? (next s h st l es) = none) (none : rejects (next s h st l es) = 0)
    (quiet : es.filterMap Effect.told? = []) :
    Entry s (h ++ [next s h st l es]) (next s h st l es) call? call.walk.tally := by
  obtain ⟨r, f⟩ := follows_of_run run at_
  have own : (next s h st l es).call = (machine s).numberOf h l.id := callOf_old hs at_
  have all : brought s (h ++ [next s h st l es]) (next s h st l es).call = r.events.length := by
    rw [own]
    exact brought_of_arrival (Machine.arrivals_mono h [next s h st l es] f.arrival)
  refine .aside ?_ (all ▸ f.along.decided_le) ?_ quiet
  · rw [own]
    exact going.tallied.self own none (by rw [silent]; rfl) rfl
  · intro call' new
    rw [same call' new]
    exact ⟨rfl, going.clean⟩

/-- A call finds no room. -/
theorem Entry.refuse (run : (machine s).Run h st) {id : CallId} {call : Call} {level : Log.Level}
    {message : String} {fields : List (String × String)} {cause : Invalid}
    (at_ : st.calls.get? id = some call) (phase : call.phase = .arrived)
    (going : Going s h id call) (other : message ≠ "event rejected")
    (effects : es = [.log ⟨level, message, fields⟩, .reply id (refusal cause)])
    (hs : step s st (.lookup id) = some (st', es)) :
    Entry s (h ++ [next s h st (.lookup id) es]) (next s h st (.lookup id) es) none
      ⟨call.walk.tally.total, 0, call.walk.tally.total, none⟩ := by
  obtain ⟨r, f⟩ := follows_of_run run at_
  have own : (next s h st (.lookup id) es).call = (machine s).numberOf h id := callOf_old hs at_
  have total : call.walk.tally.total = r.events.length := f.along.total
  have start := going.tallied
  rw [f.fresh (by simp [phase])] at start
  subst effects
  refine .away ?_ rfl rfl rfl ?_
  · rw [own]
    exact start.self own (rejects_refuse at_ other _) rfl (Nat.zero_add _).symm
  · rw [own, brought_of_arrival (Machine.arrivals_mono h _ f.arrival), ← total]
    exact Nat.zero_add _

/-- What is known of the call that takes a step. -/
theorem step_entry (run : (machine s).Run h st) (hs : step s st l = some (st', es))
    (going : ∀ call, st.calls.get? l.id = some call → Going s h l.id call) :
    ∃ left t, After st l.id left st' ∧
      Entry s (h ++ [next s h st l es]) (next s h st l es) left.call? t := by
  obtain ⟨left, move, after⟩ := step_move hs
  suffices entry : ∃ t, Entry s (h ++ [next s h st l es]) (next s h st l es) left.call? t by
    obtain ⟨t, entry⟩ := entry
    exact ⟨left, t, after, entry⟩
  cases move with
  | empty free none => exact Entry.arrive run hs (.empty free none)
  | sourceless free some lacks => exact Entry.arrive run hs (.sourceless free some lacks)
  | arrive free some named => exact Entry.arrive run hs (.arrive free some named)
  | find at_ _ _ =>
    refine ⟨_, .still run hs at_ (going _ at_) ?_ rfl (rejects_silent _) rfl⟩
    rintro call' ⟨⟩
    rfl
  | refuse at_ phase _ _ => exact ⟨_, .refuse run at_ phase (going _ at_) (by decide) rfl hs⟩
  | join at_ _ =>
    refine ⟨_, .still run hs at_ (going _ at_) ?_ rfl (rejects_silent _) rfl⟩
    rintro call' ⟨⟩
    rfl
  | drop at_ =>
    exact ⟨_, .still run hs at_ (going _ at_) (fun _ e => absurd e (by simp)) rfl
      (rejects_drop _ _) (told_wakes _ _)⟩
  | work at_ works =>
    have going := going _ (works.label_id.symm ▸ at_)
    rw [works.label_id] at going
    exact ⟨_, .work run hs at_ works going⟩

/-- **What a call in progress has decided.** -/
theorem going_of_run (run : (machine s).Run h st) {id : CallId} {call : Call}
    (at_ : st.calls.get? id = some call) : Going s h id call := by
  induction run generalizing id call with
  | start => exact absurd at_ (by simp [machine, State.start])
  | @next h st st' l es run hs ih =>
    obtain ⟨left, t, after, entry⟩ := step_entry run hs fun call at_ => ih at_
    rw [after.calls] at at_
    by_cases hid : id = l.id
    · subst hid
      rw [if_pos rfl] at at_
      obtain ⟨rfl, clean⟩ := entry.going call at_
      have number : (machine s).numberOf (h ++ [next s h st l es]) l.id =
          (next s h st l es).call := Machine.numberOf_next_name
      exact ⟨number ▸ entry.tallied, clean⟩
    · rw [if_neg hid] at at_
      have going := ih at_
      refine ⟨?_, going.clean⟩
      rw [Machine.numberOf_next id (.inr hid)]
      exact going.tallied.other (run.callOf_ne hs (busy_of_get? s at_) hid)

/-- What is known of the call that takes the next step of a run. -/
theorem entry_of_run (run : (machine s).Run h st) (hs : step s st l = some (st', es)) :
    ∃ left t, After st l.id left st' ∧
      Entry s (h ++ [next s h st l es]) (next s h st l es) left.call? t :=
  step_entry run hs fun _ at_ => going_of_run run at_

/-- **A call decides no more events than it came in with.** -/
theorem decided_of_run (run : (machine s).Run h st) (n : Nat) :
    (takenOf h n).length + rejectedOf h n ≤ brought s h n := by
  induction run with
  | start => exact Nat.zero_le _
  | @next h st st' l es run hs ih =>
    by_cases own : (next s h st l es).call = n
    · subst own
      obtain ⟨left, t, -, entry⟩ := entry_of_run run hs
      rw [entry.tallied.taken, entry.tallied.rejected]
      exact entry.le
    · rw [takenOf_other own, rejectedOf_other own]
      exact ih.trans (brought_le s h _ n)

end ChangeRelay.Dispatch
