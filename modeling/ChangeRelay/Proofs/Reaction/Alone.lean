import ChangeRelay.Proofs.Reaction.Origin

/-!
# A handler without one of its deliveries

A delivery that was not applied can be taken out of a run, together with those that waited for it:
the others can take all of their steps as before, and what is remembered and counted in the end is
the same (`Alone`).

* **`others_of_run`**: every run has a run of the others alone beside it.
* `Alone.seen?`: once the delivery has ended, nothing else is known with it than without it.
-/

namespace ChangeRelay.Reaction

/-- The call numbered `k` is the one numbered `n`, or it waited for that. -/
def Aside (s : Settings) (h : History) (n k : Nat) : Prop := k = n ∨ Waited s h k n

open Classical in
/-- What was done in `h` by all calls but the one numbered `n` and those that waited for it. -/
noncomputable def others (s : Settings) (h : History) (n : Nat) : List Label :=
  (h.filter fun m => ¬Aside s h n m.call).map Moment.label

/-- `st₀` is where the others are alone, when all of them together are in `st`, after `h`. -/
structure Alone (s : Settings) (h : History) (n : Nat) (st st₀ : State) : Prop where
  gone : ∀ {c}, Aside s h n ((machine s).numberOf h c) → st₀.deliveries.get? c = none
  kept : ∀ {c}, ¬Aside s h n ((machine s).numberOf h c) →
    st₀.deliveries.get? c = st.deliveries.get? c
  done : ∀ {x r}, st₀.window.seen? x = some (.done r) ↔ st.window.seen? x = some (.done r)
  completed : st₀.window.completed = st.window.completed
  settled : st₀.counts.settled = st.counts.settled

variable {s : Settings} {st st' st₀ : State} {l : Label} {left left₀ : Left} {es es₀ : List Effect}
variable {h : History} {n k : Nat} {c : CallId} {d : Delivery} {x : String} {a : Invocation}

/-! ## Calls that are set aside -/

/-- Whom a call waits for is settled when it comes in. -/
theorem aside_next (hk : k < ((machine s).arrivals h).length) :
    Aside s (h ++ [next s h st l es]) n k ↔ Aside s h n k := by
  refine or_congr Iff.rfl ⟨fun w => ?_, fun w => w.append _⟩
  rcases w.of_concat with w | ⟨call, f⟩
  · exact w
  · obtain ⟨i, hi⟩ := Option.isSome_iff_exists.mp f.request?
    have : (next s h st l es).call = ((machine s).arrivals h).length :=
      Machine.callOf_some (M := machine s) hi
    omega

open Classical in
theorem others_concat (run : (machine s).Run h st) :
    others s (h ++ [next s h st l es]) n = others s h n ++
      if Aside s (h ++ [next s h st l es]) n ((machine s).callOf h l) then [] else [l] := by
  have old : h.filter (fun m => ¬Aside s (h ++ [next s h st l es]) n m.call) =
      h.filter (fun m => ¬Aside s h n m.call) := by
    refine List.filter_congr fun m hm => ?_
    rw [decide_eq_decide, aside_next (run.call_lt hm)]
  have call : (next s h st l es).call = (machine s).callOf h l := rfl
  unfold others
  rw [List.filter_append, List.map_append, old, List.filter_singleton, call]
  by_cases ha : Aside s (h ++ [next s h st l es]) n ((machine s).callOf h l)
  · simp [ha]
  · rw [if_neg ha]
    simp only [ha, not_false_eq_true, decide_true, cond_true]
    rfl

/-- A delivery in progress is set aside after a step iff it was before. -/
theorem aside_kept (run : (machine s).Run h st) (hs : step s st l = some (st', es))
    (hd : st.deliveries.get? c = some d) :
    Aside s (h ++ [next s h st l es]) n ((machine s).numberOf (h ++ [next s h st l es]) c) ↔
      Aside s h n ((machine s).numberOf h c) := by
  rw [number_kept hs hd]
  exact aside_next (run.number_lt (busy_of_get? s hd))

/-- A step of a delivery in progress is set aside iff the delivery is. -/
theorem aside_old (run : (machine s).Run h st) (hs : step s st l = some (st', es))
    (at_ : st.deliveries.get? l.id = some d) :
    Aside s (h ++ [next s h st l es]) n ((machine s).callOf h l) ↔
      Aside s h n ((machine s).numberOf h l.id) := by
  rw [callOf_old hs at_]
  exact aside_next (run.number_lt (busy_of_get? s at_))

/-- A delivery that is being applied has not waited, so it is only set aside as the one. -/
theorem Traced.aside_applying (t : Traced s h st)
    (at_ : st.deliveries.get? c = some ⟨x, .applying a⟩) :
    Aside s h n ((machine s).numberOf h c) ↔ (machine s).numberOf h c = n :=
  or_iff_left (t.applying at_ n)

namespace Alone

/-! ## What the others have alone -/

theorem free (al : Alone s h n st st₀) (hc : st.deliveries.get? c = none) :
    st₀.deliveries.get? c = none := by
  by_cases ha : Aside s h n ((machine s).numberOf h c)
  · exact al.gone ha
  · rw [al.kept ha, hc]

theorem old (al : Alone s h n st st₀) (hc : st₀.deliveries.get? c = some d) :
    st.deliveries.get? c = some d ∧ ¬Aside s h n ((machine s).numberOf h c) := by
  by_cases ha : Aside s h n ((machine s).numberOf h c)
  · exact absurd (hc.symm.trans (al.gone ha)) (by simp)
  · exact ⟨by rw [← al.kept ha, hc], ha⟩

theorem unseen (al : Alone s h n st st₀) (o : Orderly st) (o₀ : Orderly st₀)
    (new : st.window.seen? x = none) : st₀.window.seen? x = none := by
  cases seen : st₀.window.seen? x with
  | none => rfl
  | some known =>
    cases known with
    | done r => exact absurd (new.symm.trans (al.done.mp seen)) (by simp)
    | inFlight owner =>
      obtain ⟨a, at₀⟩ := o₀.owner.mp seen
      have mark := o.owner.mpr ⟨a, (al.old at₀).1⟩
      exact absurd (new.symm.trans mark) (by simp)

/-- Once the one has ended, nothing else is known with it than without it. -/
theorem seen? (al : Alone s h n st st₀) (run : (machine s).Run h st) (o₀ : Orderly st₀)
    (ended : ∀ c d, st.deliveries.get? c = some d → (machine s).numberOf h c ≠ n) (x : String) :
    st₀.window.seen? x = st.window.seen? x := by
  have o := orderly_of_run run
  cases seen : st.window.seen? x with
  | none => exact al.unseen o o₀ seen
  | some known =>
    cases known with
    | done r => exact al.done.mpr seen
    | inFlight owner =>
      obtain ⟨a, at_⟩ := o.owner.mp seen
      have stays := mt ((traced_of_run run).aside_applying at_).mp (ended owner _ at_)
      exact o₀.owner.mpr ⟨a, (al.kept stays).trans at_⟩

/-! ## Steps of those set aside -/

/-- Nothing is applied that is set aside. -/
theorem not_taken (run : (machine s).Run h st) (hs : step s st l = some (st', es))
    (aside : Aside s (h ++ [next s h st l es]) n ((machine s).callOf h l))
    (unapplied : (machine s).callOf h l = n → ∀ c, l ≠ .answer c .taken) (c : CallId) :
    l ≠ .answer c .taken := by
  rintro rfl
  obtain ⟨left, m, -⟩ := step_move hs
  cases m with
  | complete at_ =>
    have one := ((traced_of_run run).aside_applying at_).mp ((aside_old run hs at_).mp aside)
    exact unapplied ((callOf_old hs at_).trans one) c rfl

/-- When a delivery ends that is set aside, only such ones are released. -/
theorem keep_eq (run : (machine s).Run h st) (hs : step s st l = some (st', es))
    (aside : Aside s (h ++ [next s h st l es]) n ((machine s).callOf h l)) (left : Left)
    (hd : st.deliveries.get? c = some d) (stays : ¬Aside s h n ((machine s).numberOf h c)) :
    left.keep l.id d = d := by
  have t := traced_of_run run
  have o := orderly_of_run run
  unfold Left.keep
  cases left.release? with
  | none => rfl
  | some reply? =>
    refine if_neg fun waits => stays ?_
    obtain ⟨x, phase⟩ := d
    obtain rfl : phase = .awaiting l.id := waits
    obtain ⟨a, at_⟩ := o.owner.mp (o.awaits hd)
    rw [aside_old run hs at_, t.aside_applying at_] at aside
    exact .inr (aside ▸ t.awaiting hd)

/-- A step that is set aside is not seen by the others. -/
theorem skip (al : Alone s h n st st₀) (run : (machine s).Run h st)
    (hs : step s st l = some (st', es))
    (aside : Aside s (h ++ [next s h st l es]) n ((machine s).callOf h l))
    (unapplied : (machine s).callOf h l = n → ∀ c, l ≠ .answer c .taken) :
    Alone s (h ++ [next s h st l es]) n st' st₀ := by
  obtain ⟨left, m, after⟩ := step_move hs
  have o := orderly_of_run run
  have none := not_taken run hs aside unapplied
  have number : (machine s).numberOf (h ++ [next s h st l es]) l.id = (machine s).callOf h l :=
    Machine.numberOf_next_name
  obtain ⟨completed, done, -⟩ := (m.completes o).resolve_right (by
    rintro ⟨x, a, hl, -⟩
    exact none _ hl)
  constructor
  case gone =>
    intro c ha
    cases hd : st.deliveries.get? c with
    | none => exact al.free hd
    | some d => exact al.gone ((aside_kept run hs hd).mp ha)
  case kept =>
    intro c ha
    have hc : c ≠ l.id := by
      rintro rfl
      exact ha (number ▸ aside)
    rw [after.deliveries, if_neg hc]
    cases hd : st.deliveries.get? c with
    | none => exact al.free hd
    | some d =>
      have stays := mt (aside_kept run hs hd).mpr ha
      rw [al.kept stays, hd, Option.map_some, keep_eq run hs aside left hd stays]
  case done =>
    intro x r
    rw [al.done, after.window, done]
  case completed => rw [al.completed, after.window, completed]
  case settled =>
    rcases step_counts hs with ⟨settled, -⟩ | ⟨x, a, hl, -⟩
    · rw [al.settled, settled]
    · exact absurd hl (none _)

/-! ## Steps of the others -/

section Others

variable (al : Alone s h n st st₀) (run : (machine s).Run h st) (o₀ : Orderly st₀)
  (hs : Reaction.step s st l = some (st', es))
  (apart : ¬Aside s (h ++ [next s h st l es]) n ((machine s).callOf h l))

include al run apart

/-- A delivery finds its id in flight alone if it finds it so with the others. -/
theorem marked (o₀ : Orderly st₀) {i : Wire.Invocation} {id owner : CallId}
    (hl : l = .arrive id i) (named : i.id ≠ "")
    (seen : st.window.seen? i.id = some (.inFlight owner)) :
    st₀.window.seen? i.id = some (.inFlight owner) := by
  obtain ⟨a, at_⟩ := (orderly_of_run run).owner.mp seen
  refine o₀.owner.mpr ⟨a, (al.kept fun aside => apart ?_).trans at_⟩
  have one := ((traced_of_run run).aside_applying at_).mp aside
  exact .inr ⟨h, next s h st l es, [], rfl, rfl, id, i, owner, hl, named, seen, one⟩

include hs

theorem stays (hd : st.deliveries.get? l.id = some d) : st₀.deliveries.get? l.id = some d := by
  rw [aside_old run hs hd] at apart
  rw [al.kept apart, hd]

include o₀

/-- The step can be taken alone, and leaves the same of its delivery. -/
theorem move (m : Move s st l left es) : ∃ left₀ es₀, Move s st₀ l left₀ es₀ ∧
    left₀.delivery? = left.delivery? ∧ left₀.release? = left.release? := by
  have o := orderly_of_run run
  cases m with
  | unnamed free unnamed => exact ⟨_, _, .unnamed (al.free free) unnamed, rfl, rfl⟩
  | again free named seen =>
    exact ⟨_, _, .again (al.free free) named (al.done.mpr seen), rfl, rfl⟩
  | await free named seen =>
    have mark := al.marked run apart o₀ rfl named seen
    exact ⟨_, _, .await (al.free free) named mark, rfl, rfl⟩
  | refuse free named new bad =>
    exact ⟨_, _, .refuse (al.free free) named (al.unseen o o₀ new) bad, rfl, rfl⟩
  | apply free named new good =>
    exact ⟨_, _, .apply (al.free free) named (al.unseen o o₀ new) good, rfl, rfl⟩
  | fail fault at_ => exact ⟨_, _, .fail fault (al.stays run hs apart at_), rfl, rfl⟩
  | complete at_ => exact ⟨_, _, .complete (al.stays run hs apart at_), rfl, rfl⟩
  | resume at_ => exact ⟨_, _, .resume (al.stays run hs apart at_), rfl, rfl⟩
  | expire at_ => exact ⟨_, _, .expire (al.stays run hs apart at_), rfl, rfl⟩
  | interrupt at_ => exact ⟨_, _, .interrupt (al.stays run hs apart at_), rfl, rfl⟩
  | leave at_ idle => exact ⟨_, _, .leave (al.stays run hs apart at_) idle, rfl, rfl⟩

/-- What is remembered after the step is the same alone. -/
theorem remembers (m : Move s st l left es) (m₀ : Move s st₀ l left₀ es₀) :
    left₀.window.completed = left.window.completed ∧ ∀ x r,
      left₀.window.seen? x = some (.done r) ↔ left.window.seen? x = some (.done r) := by
  have o := orderly_of_run run
  rcases m.completes o with ⟨completed, done, none⟩ | ⟨y, a, hl, at_, window⟩
  · obtain ⟨completed₀, done₀, -⟩ := (m₀.completes o₀).resolve_right (by
      rintro ⟨y, a, hl, -⟩
      exact none _ hl)
    refine ⟨by rw [completed, completed₀, al.completed], fun x r => ?_⟩
    rw [done, done₀, al.done]
  · have at₀ := al.stays run hs apart at_
    obtain ⟨y₀, a₀, -, at₀', window₀⟩ := (m₀.completes o₀).resolve_left (by
      rintro ⟨-, -, none⟩
      exact none _ hl)
    obtain ⟨rfl, rfl⟩ := applying_unique at₀' at₀
    have new := o.not_completed (o.owner.mpr ⟨_, at_⟩)
    have new₀ := o₀.not_completed (o₀.owner.mpr ⟨_, at₀⟩)
    refine ⟨?_, fun x r => ?_⟩
    · rw [window, window₀, Window.completed_complete, Window.completed_complete, al.completed]
    · rw [window, window₀, Window.seen?_complete (remembered_pos s) o.nodup new,
        Window.seen?_complete (remembered_pos s) o₀.nodup new₀, al.completed]
      split
      · rfl
      · split
        · rfl
        · exact al.done

/-- **A step of the others can be taken alone.** -/
theorem step : ∃ st₀' es₀, Reaction.step s st₀ l = some (st₀', es₀) ∧
    Alone s (h ++ [next s h st l es]) n st' st₀' := by
  obtain ⟨left, m, after⟩ := step_move hs
  obtain ⟨left₀, es₀, m₀, delivery, release⟩ := al.move run o₀ hs apart m
  obtain ⟨st₀', hs₀, after₀⟩ := m₀.step
  obtain ⟨completed, done⟩ := al.remembers run o₀ hs apart m m₀
  have number : (machine s).numberOf (h ++ [next s h st l es]) l.id = (machine s).callOf h l :=
    Machine.numberOf_next_name
  have keep : ∀ d, left₀.keep l.id d = left.keep l.id d := by
    intro d
    unfold Left.keep
    rw [release]
  refine ⟨st₀', es₀, hs₀, ?_⟩
  constructor
  case gone =>
    intro c ha
    have hc : c ≠ l.id := by
      rintro rfl
      exact apart (number ▸ ha)
    rw [after₀.deliveries, if_neg hc, Option.map_eq_none_iff]
    cases hd : st.deliveries.get? c with
    | none => exact al.free hd
    | some d => exact al.gone ((aside_kept run hs hd).mp ha)
  case kept =>
    intro c ha
    rw [after₀.deliveries, after.deliveries, delivery]
    by_cases hc : c = l.id
    · rw [if_pos hc, if_pos hc]
    · rw [if_neg hc, if_neg hc]
      cases hd : st.deliveries.get? c with
      | none => rw [al.free hd]; rfl
      | some d =>
        rw [al.kept (mt (aside_kept run hs hd).mpr ha), hd, Option.map_some, Option.map_some, keep]
  case done =>
    intro x r
    rw [after.window, after₀.window]
    exact done x r
  case completed => rw [after.window, after₀.window, completed]
  case settled =>
    rcases step_counts hs with ⟨settled, none⟩ | ⟨x, a, hl, at_, counts⟩
    · obtain ⟨settled₀, -⟩ := (step_counts hs₀).resolve_right (by
        rintro ⟨x, a, hl, -⟩
        exact none _ hl)
      rw [settled, settled₀, al.settled]
    · have at₀ := al.stays run hs apart at_
      obtain ⟨x₀, a₀, -, at₀', counts₀⟩ := (step_counts hs₀).resolve_left (by
        rintro ⟨-, none⟩
        exact none _ hl)
      obtain ⟨rfl, rfl⟩ := applying_unique at₀' at₀
      have same : ∀ (c : Counts) (p : Payload), (c.apply p).settled = c.settled.apply p :=
        fun _ _ => rfl
      rw [counts, counts₀, same, same, al.settled]

end Others

end Alone

/-- **Every run has a run of the others alone beside it**, without a delivery that was not applied
and without those that waited for it. -/
theorem others_of_run (run : (machine s).Run h st)
    (unapplied : ∀ m ∈ h, m.call = n → ∀ c, m.label ≠ .answer c .taken) :
    ∃ h₀ st₀, (machine s).Run h₀ st₀ ∧ h₀.map Moment.label = others s h n ∧
      Alone s h n st st₀ := by
  induction run with
  | start =>
    refine ⟨[], .start, .start, rfl, ?_⟩
    exact ⟨fun _ => rfl, fun _ => rfl, Iff.rfl, rfl, rfl⟩
  | @next h st st' l es run hs ih =>
    obtain ⟨h₀, st₀, run₀, labels, al⟩ := ih fun m hm => unapplied m (List.mem_append_left _ hm)
    by_cases aside : Aside s (h ++ [next s h st l es]) n ((machine s).callOf h l)
    · refine ⟨h₀, st₀, run₀, ?_, al.skip run hs aside (unapplied (next s h st l es) (by simp))⟩
      rw [labels, others_concat run, if_pos aside, List.append_nil]
    · obtain ⟨st₀', es₀, hs₀, al'⟩ := al.step run (orderly_of_run run₀) hs aside
      refine ⟨_, st₀', run₀.next hs₀, ?_, al'⟩
      rw [List.map_append, labels, others_concat run, if_neg aside]
      rfl

end ChangeRelay.Reaction
