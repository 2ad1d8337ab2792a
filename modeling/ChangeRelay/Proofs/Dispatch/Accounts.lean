import ChangeRelay.Proofs.Dispatch.Tallies
import Mathlib.Algebra.BigOperators.Group.List.Basic
import Mathlib.Data.List.Nodup

/-!
# The accounts of a dispatcher

An event that came in is processed or rejected, or its call has not decided it. When no call is in
progress, a call that has not decided all its events was aborted in front of them or was dropped by
then, and every call was either answered or dropped. So the totals are sums over the answered calls
and the dropped ones, and the answers tell the sums of the former.

* `told_of_run`: every answered call is told how many of its events the pipeline has taken.
* `over_perm`: when no call is in progress, every call was answered or dropped.
* `balance_of_run`: what was received is what was processed, rejected and not decided.
* `shown_of_run`: the counters show the totals, as long as these fit into 64 bits.
* **`balanced_of_run`**: all that the totals say of a history.
-/

namespace ChangeRelay.Dispatch

/-- The numbers of the calls that were answered, in the order of their answers. -/
def answered (h : History) : List Nat := (h.filter fun m => answers m.effects).map Moment.call

def dropped (h : History) : List Nat := (h.filter fun m => m.label.isDrop).map Moment.call

/-- The answers. -/
def replies (h : History) : List DispatchReply :=
  h.flatMap fun m => (m.effects.filterMap Effect.told?).map Prod.snd

/-- How many events of a call were neither taken nor rejected. When the call is over, these are the
events that it had not decided by then. -/
def undecided (s : Settings) (h : History) (n : Nat) : Nat :=
  brought s h n - (takenOf h n).length - rejectedOf h n

/-- What the totals of a dispatcher say of its history. -/
structure Balanced (s : Settings) (h : History) (st : State) : Prop where
  processed : st.counts.processed = (pipeline h).length
  batches : st.counts.batches = ((machine s).arrivals h).countP fun a => a.2.isBatch
  received : st.counts.received = (((machine s).arrivals h).map fun a => a.2.events.length).sum
  rejected : st.counts.rejected = (h.map rejects).sum
  /-- Of a call no more events are decided than it came in with. -/
  decided : ∀ n, (takenOf h n).length + rejectedOf h n ≤ brought s h n
  /-- An answered call has left events only where one rejected event was the end of it. -/
  aborted : ∀ n ∈ answered h, undecided s h n ≠ 0 →
    s.failurePolicy = .abort ∧ rejectedOf h n = 1
  /-- It is told how many of its events were taken. -/
  told : (replies h).map DispatchReply.processed =
    (answered h).map fun n => UInt64.ofNat (takenOf h n).length
  /-- When no call is in progress, each was either answered or dropped. -/
  ended : (∀ c, (machine s).busy st c = false) →
    (answered h ++ dropped h).Perm (List.range ((machine s).arrivals h).length)
  /-- Then every event received was processed or rejected, or left by a call that was aborted, or
  not decided by one that was dropped. -/
  balance : (∀ c, (machine s).busy st c = false) → st.counts.received =
    st.counts.processed + st.counts.rejected + ((answered h).map (undecided s h)).sum +
      ((dropped h).map (undecided s h)).sum
  /-- What was processed is what the callers were told, and what was taken of dropped calls. -/
  replied : (∀ c, (machine s).busy st c = false) → UInt64.ofNat st.counts.processed =
    Dispatch.told (replies h) + UInt64.ofNat ((dropped h).map fun n => (takenOf h n).length).sum
  /-- No sum wraps around if the calls are not too long to be told of. -/
  summed : (∀ c, (machine s).busy st c = false) →
    (∀ a ∈ (machine s).arrivals h, a.2.events.length < 2 ^ 64) → st.counts.processed =
      ((replies h).map fun r => r.processed.toNat).sum +
        ((dropped h).map fun n => (takenOf h n).length).sum
  /-- The counters show the totals, if their 64 bits can count all calls and all events. -/
  shown : ((machine s).arrivals h).length < UInt64.size →
    (((machine s).arrivals h).map fun a => a.2.events.length).sum < UInt64.size →
      st.counts.shown = st.counts

variable {s : Settings} {st st' : State} {l : Label} {left : Left} {es : List Effect}
variable {h : History} {n : Nat} {m : Moment State Label Effect}

/-! ## What answered calls are told -/

theorem answered_concat (h : History) (m : Moment State Label Effect) :
    answered (h ++ [m]) = answered h ++ if answers m.effects then [m.call] else [] := by
  rw [answered, List.filter_append, List.map_append]
  by_cases ha : answers m.effects = true <;> simp [answered, ha]

theorem replies_concat (h : History) (m : Moment State Label Effect) :
    replies (h ++ [m]) = replies h ++ (m.effects.filterMap Effect.told?).map Prod.snd := by
  rw [replies, List.flatMap_append, List.flatMap_singleton]
  rfl

theorem last_answer : (machine s).Last fun _ es => answers es = true := fun hs answer =>
  (step_ending hs).over_iff.mpr (.inl (answers_iff.mp answer))

theorem mem_answered : n ∈ answered h ↔ ∃ m ∈ h, answers m.effects = true ∧ m.call = n := by
  simp [answered, and_assoc]

/-- An answered call takes no further step. -/
theorem ne_of_answered (run : (machine s).Run h st) (hs : step s st l = some (st', es))
    (hn : n ∈ answered h) : (next s h st l es).call ≠ n := by
  obtain ⟨m, hm, answer, rfl⟩ := mem_answered.mp hn
  exact (run.nothing_after last_answer hs hm answer).symm

/-- **Every answered call is told how many of its events the pipeline has taken.** -/
theorem told_of_run (run : (machine s).Run h st) : (replies h).map DispatchReply.processed =
    (answered h).map fun n => UInt64.ofNat (takenOf h n).length := by
  induction run with
  | start => rfl
  | @next h st st' l es run hs ih =>
    have before : ((answered h).map fun n =>
        UInt64.ofNat (takenOf (h ++ [next s h st l es]) n).length) =
          (answered h).map fun n => UInt64.ofNat (takenOf h n).length :=
      List.map_congr_left fun n hn => by rw [takenOf_other (ne_of_answered run hs hn)]
    rw [replies_concat, answered_concat, List.map_append, List.map_append, before, ih]
    refine congrArg _ ?_
    obtain ⟨left, t, -, entry⟩ := entry_of_run run hs
    by_cases answer : es.filterMap Effect.told? = []
    · have quiet : answers es = false := by simp [answers, answer]
      simp [Machine.moment, answer, quiet]
    · obtain ⟨reply, only⟩ := (step_ending hs).single answer
      have told := entry.told (l.id, reply) (only ▸ List.mem_singleton_self _)
      rw [← entry.tallied.taken] at told
      have now : answers es = true := answers_iff.mpr answer
      simp only [Machine.moment, only, now, if_true, List.map_singleton]
      exact congrArg (fun n => [n]) told

/-- **An answered call has left events only where one rejected event was the end of it.** -/
theorem aborted_of_run (run : (machine s).Run h st) (hn : n ∈ answered h)
    (some : undecided s h n ≠ 0) : s.failurePolicy = .abort ∧ rejectedOf h n = 1 := by
  induction run with
  | start => exact absurd hn (by simp [answered])
  | @next h st st' l es run hs ih =>
    rw [answered_concat, List.mem_append] at hn
    rcases hn with hn | hn
    · have other := ne_of_answered run hs hn
      obtain ⟨m, hm, -, rfl⟩ := mem_answered.mp hn
      obtain ⟨r, arrival⟩ := run.moment_spec hm
      rw [undecided, brought_kept _ arrival, takenOf_other other, rejectedOf_other other] at some
      rw [rejectedOf_other other]
      exact ih hn some
    · obtain ⟨left, t, -, entry⟩ := entry_of_run run hs
      split at hn
      · next answer =>
        obtain rfl : n = (next s h st l es).call := List.mem_singleton.mp hn
        have left : undecided s (h ++ [next s h st l es]) (next s h st l es).call ≠ 0 := some
        rw [undecided, entry.tallied.taken, entry.tallied.rejected] at left
        rw [entry.tallied.rejected]
        refine entry.aborted answer ?_
        unfold Tally.decided
        omega
      · exact absurd hn (by simp)

/-! ## Calls that are over -/

/-- A step is the last one of its call. -/
def Over (l : Label) (es : List Effect) : Prop := answers es = true ∨ l.isDrop = true

theorem last_drop : (machine s).Last fun l _ => l.isDrop = true := fun hs drops =>
  (step_ending hs).over_iff.mpr (.inr drops)

theorem ends_over : (machine s).Ends Over := fun hs ended =>
  ((step_ending hs).over_iff.mp ended).imp_left answers_iff.mpr

theorem mem_dropped : n ∈ dropped h ↔ ∃ m ∈ h, m.label.isDrop = true ∧ m.call = n := by
  simp [dropped, and_assoc]

/-- The calls that were answered and those that were dropped, each once. -/
theorem nodup_over (run : (machine s).Run h st) : (answered h ++ dropped h).Nodup := by
  rw [List.nodup_append]
  refine ⟨?_, ?_, ?_⟩
  · simpa [answered] using run.nodup_ended last_answer
  · simpa [dropped] using run.nodup_ended last_drop
  · rintro n hn n' hn' rfl
    obtain ⟨m, hm, answer, rfl⟩ := mem_answered.mp hn
    obtain ⟨m', hm', drops, same⟩ := mem_dropped.mp hn'
    have last : (machine s).Last Over := fun hs ended =>
      ended.elim (last_answer hs) (last_drop hs)
    obtain rfl := run.end_unique last hm' hm same (.inr drops) (.inl answer)
    obtain ⟨pre, post, rfl⟩ := List.append_of_mem hm
    obtain ⟨-, -, st', hs⟩ := run.before
    have ending := step_ending hs
    rw [drops] at ending
    exact answers_iff.mp answer ending.of_dropped.2

/-- **When no call is in progress, each was either answered or dropped.** -/
theorem over_perm (run : (machine s).Run h st) (idle : ∀ c, (machine s).busy st c = false) :
    (answered h ++ dropped h).Perm (List.range ((machine s).arrivals h).length) := by
  refine (List.perm_ext_iff_of_nodup (nodup_over run) List.nodup_range).mpr fun n => ?_
  rw [List.mem_append, mem_answered, mem_dropped, List.mem_range]
  constructor
  · rintro (⟨m, hm, -, rfl⟩ | ⟨m, hm, -, rfl⟩)
    · exact run.call_lt hm
    · exact run.call_lt hm
  · intro hn
    rcases run.busy_or_ended ends_over hn with ⟨id, busy, -⟩ | ⟨m, hm, own, answer | drops⟩
    · exact absurd ((idle id).symm.trans busy) (by simp)
    · exact .inl ⟨m, hm, answer, own⟩
    · exact .inr ⟨m, hm, drops, own⟩

/-! ## Sums over the calls -/

/-- A sum is the sum over all numbers of the sums over what has that number. -/
theorem sum_by_number {α : Type} (number f : α → Nat) {bound : Nat} : ∀ as : List α,
    (∀ a ∈ as, number a < bound) →
    ((List.range bound).map fun n => ((as.filter fun a => number a = n).map f).sum).sum =
      (as.map f).sum
  | [], _ => by simp
  | a :: as, lt => by
    have first (n : Nat) : (((a :: as).filter fun a => number a = n).map f).sum =
        (if number a = n then f a else 0) + ((as.filter fun a => number a = n).map f).sum := by
      by_cases own : number a = n <;> simp [own]
    have one : ((List.range bound).map fun n => if number a = n then f a else 0).sum = f a := by
      rw [List.sum_map_eq_nsmul_single (number a) _ fun n other _ => if_neg other.symm,
        List.count_eq_one_of_mem List.nodup_range (List.mem_range.mpr (lt a List.mem_cons_self)),
        if_pos rfl, one_nsmul]
    simp only [first]
    have rest := sum_by_number number f as fun b hb => lt b (List.mem_cons_of_mem a hb)
    rw [List.sum_map_add, one, rest, List.map_cons, List.sum_cons]

theorem sum_brought (s : Settings) (h : History) :
    ((List.range ((machine s).arrivals h).length).map (brought s h)).sum =
      (((machine s).arrivals h).map fun a => a.2.events.length).sum := by
  refine congrArg List.sum (List.ext_getElem (by simp) fun n hn hn' => ?_)
  simp only [List.length_map, List.length_range] at hn
  simp [brought, hn]

theorem sum_taken (run : (machine s).Run h st) :
    ((List.range ((machine s).arrivals h).length).map fun n => (takenOf h n).length).sum =
      (pipeline h).length := by
  have bound : ∀ t ∈ pipeline h, t.call < ((machine s).arrivals h).length := fun t ht => by
    obtain ⟨m, hm, taken⟩ := mem_pipeline ht
    exact taken?_call taken ▸ run.call_lt hm
  simpa [takenOf] using sum_by_number Taken.call (fun _ => 1) (pipeline h) bound

theorem sum_rejected (run : (machine s).Run h st) :
    ((List.range ((machine s).arrivals h).length).map (rejectedOf h)).sum = (h.map rejects).sum :=
  sum_by_number Moment.call rejects h fun _ hm => run.call_lt hm

/-- A sum over all calls, when none is in progress. -/
theorem sum_over (run : (machine s).Run h st) (idle : ∀ c, (machine s).busy st c = false)
    (f : Nat → Nat) : ((List.range ((machine s).arrivals h).length).map f).sum =
      ((answered h).map f).sum + ((dropped h).map f).sum := by
  rw [← ((over_perm run idle).map f).sum_eq, List.map_append, List.sum_append]

/-- An event is taken or rejected, or its call has not decided it. -/
theorem brought_split (run : (machine s).Run h st) (n : Nat) :
    brought s h n = (takenOf h n).length + rejectedOf h n + undecided s h n := by
  have le := decided_of_run run n
  unfold undecided
  omega

/-- What was received is what was processed, what was rejected, and what no call has decided. -/
theorem received_of_run (run : (machine s).Run h st) :
    st.counts.received = st.counts.processed + st.counts.rejected +
      ((List.range ((machine s).arrivals h).length).map (undecided s h)).sum := by
  have split : brought s h = fun n => (takenOf h n).length + rejectedOf h n + undecided s h n :=
    funext (brought_split run)
  rw [counts_of_run run]
  calc (((machine s).arrivals h).map fun a => a.2.events.length).sum
    _ = ((List.range ((machine s).arrivals h).length).map (brought s h)).sum :=
      (sum_brought s h).symm
    _ = (pipeline h).length + (h.map rejects).sum +
        ((List.range ((machine s).arrivals h).length).map (undecided s h)).sum := by
      rw [split, List.sum_map_add, List.sum_map_add, sum_taken run, sum_rejected run]

/-- **What was received** is what was processed, what was rejected, and what the calls that are over
have not decided. -/
theorem balance_of_run (run : (machine s).Run h st) (idle : ∀ c, (machine s).busy st c = false) :
    st.counts.received = st.counts.processed + st.counts.rejected +
      ((answered h).map (undecided s h)).sum + ((dropped h).map (undecided s h)).sum := by
  rw [received_of_run run, sum_over run idle, ← Nat.add_assoc]

/-- What was processed, call by call. -/
theorem processed_over (run : (machine s).Run h st) (idle : ∀ c, (machine s).busy st c = false) :
    st.counts.processed = ((answered h).map fun n => (takenOf h n).length).sum +
      ((dropped h).map fun n => (takenOf h n).length).sum := by
  rw [← sum_over run idle, sum_taken run, counts_of_run run]

theorem foldl_ofNat (f : Nat → Nat) : ∀ (ns : List Nat) (k : Nat),
    (ns.map fun n => UInt64.ofNat (f n)).foldl (· + ·) (UInt64.ofNat k) =
      UInt64.ofNat (k + (ns.map f).sum)
  | [], k => rfl
  | n :: ns, k => by
    rw [List.map_cons, List.foldl_cons, ← UInt64.ofNat_add, foldl_ofNat f ns, List.map_cons,
      List.sum_cons, Nat.add_assoc]

/-- What the callers are told adds up to what was taken of the answered calls. -/
theorem told_replies (run : (machine s).Run h st) : told (replies h) =
    UInt64.ofNat ((answered h).map fun n => (takenOf h n).length).sum := by
  have sum := foldl_ofNat (fun n => (takenOf h n).length) (answered h) 0
  rw [← told_of_run run, List.foldl_map, Nat.zero_add] at sum
  exact sum

/-- It is the same as numbers, if no call is too long to be told of. -/
theorem sum_replies (run : (machine s).Run h st)
    (short : ∀ a ∈ (machine s).arrivals h, a.2.events.length < 2 ^ 64) :
    ((replies h).map fun r => r.processed.toNat).sum =
      ((answered h).map fun n => (takenOf h n).length).sum := by
  have same := congrArg (List.map UInt64.toNat) (told_of_run run)
  rw [List.map_map, List.map_map] at same
  refine congrArg List.sum (same.trans (List.map_congr_left fun n hn => ?_))
  obtain ⟨m, hm, -, rfl⟩ := mem_answered.mp hn
  obtain ⟨r, arrival⟩ := run.moment_spec hm
  have le := decided_of_run run m.call
  have lt := short _ (List.mem_of_getElem? arrival)
  rw [brought_of_arrival arrival] at le
  exact UInt64.toNat_ofNat_of_lt' (Nat.lt_of_le_of_lt (Nat.le_of_add_right_le le) lt)

/-! ## The accounts -/

/-- The counters show the totals, if there are fewer calls and fewer events than 64 bits can
count. -/
theorem shown_of_run (run : (machine s).Run h st)
    (calls : ((machine s).arrivals h).length < UInt64.size)
    (events : (((machine s).arrivals h).map fun a => a.2.events.length).sum < UInt64.size) :
    st.counts.shown = st.counts := by
  have counts := counts_of_run run
  have batches : st.counts.batches ≤ ((machine s).arrivals h).length := by
    rw [counts]
    exact List.countP_le_length
  have received : st.counts.received =
      (((machine s).arrivals h).map fun a => a.2.events.length).sum := by rw [counts]
  have decided := received_of_run run
  unfold Counts.shown
  rw [Nat.mod_eq_of_lt (by omega), Nat.mod_eq_of_lt (by omega), Nat.mod_eq_of_lt (by omega),
    Nat.mod_eq_of_lt (by omega)]

/-- **What the totals of a dispatcher say of its history.** -/
theorem balanced_of_run (run : (machine s).Run h st) : Balanced s h st where
  processed := congrArg Counts.processed (counts_of_run run)
  batches := congrArg Counts.batches (counts_of_run run)
  received := congrArg Counts.received (counts_of_run run)
  rejected := congrArg Counts.rejected (counts_of_run run)
  decided := decided_of_run run
  aborted _ hn some := aborted_of_run run hn some
  told := told_of_run run
  ended := over_perm run
  balance := balance_of_run run
  replied idle := by rw [processed_over run idle, UInt64.ofNat_add, told_replies run]
  summed idle short := by rw [processed_over run idle, sum_replies run short]
  shown := shown_of_run run

namespace Sample

/-- Three streams at most, and a rejected event is the end of its call. -/
def aborting : Settings := ⟨"d", .abort, Duration.ofSeconds 1, 3⟩

/-- Call 0 has its second event of four rejected, and call 1 is dropped with its second of three on
offer. Call 2 names no source, call 3 is empty, call 4 is a single event, and for call 5 there is no
room. -/
def mishaps : List Label :=
  [.arrive 0 (.batch ⟨"a", [change 1 "c", change 2 "x", change 3 "u", change 4 "d"], .empty⟩),
    .arrive 1 (.batch ⟨"b", [change 1 "c", change 2 "u", change 3 "d"], .empty⟩),
    .lookup 0, .lookup 1, .join 0, .join 1, .proceed 0, .proceed 1, .answer 1 .taken, .drop 1,
    .answer 0 .taken, .arrive 2 (.batch ⟨"", [change 1 "c"], .empty⟩), .arrive 3 (.group []),
    .arrive 4 (.single (change 9 "c")), .lookup 4, .join 4, .proceed 4,
    .arrive 5 (.batch ⟨"e", [change 1 "c", change 2 "u"], .empty⟩), .lookup 5, .answer 4 .taken]

end Sample

/-- Eleven events come in: three are processed and four rejected, two are left by the call that was
aborted, and two are not decided by the one that was dropped. -/
theorem balanced_sample : ∃ h st, (machine Sample.aborting).play Sample.mishaps = some (h, st) ∧
    st.counts = ⟨5, 11, 3, 4⟩ ∧ (replies h).map DispatchReply.processed = [1, 0, 0, 0, 1] ∧
    (answered h).map (undecided Sample.aborting h) = [2, 0, 0, 0, 0] ∧
    (dropped h).map (undecided Sample.aborting h) = [2] ∧
    (∀ c, (machine Sample.aborting).busy st c = false) ∧
    (∀ a ∈ (machine Sample.aborting).arrivals h, a.2.events.length < 2 ^ 64) ∧
    Balanced Sample.aborting h st := by
  have played : ((machine Sample.aborting).play Sample.mishaps).map (fun r =>
      ((r.2.counts, r.2.calls,
          ((machine Sample.aborting).arrivals r.1).all fun a => a.2.events.length < 2 ^ 64),
        (replies r.1).map DispatchReply.processed,
        (answered r.1).map (undecided Sample.aborting r.1),
        (dropped r.1).map (undecided Sample.aborting r.1))) =
      some ((⟨5, 11, 3, 4⟩, .empty, true), [1, 0, 0, 0, 1], [2, 0, 0, 0, 0], [2]) := by
    decide +kernel
  obtain ⟨⟨h, st⟩, hr, facts⟩ := Option.map_eq_some_iff.mp played
  obtain ⟨totals, facts⟩ := Prod.mk.inj facts
  obtain ⟨counts, totals⟩ := Prod.mk.inj totals
  obtain ⟨none, short⟩ := Prod.mk.inj totals
  obtain ⟨told, facts⟩ := Prod.mk.inj facts
  obtain ⟨left, cut⟩ := Prod.mk.inj facts
  have idle : ∀ c, (machine Sample.aborting).busy st c = false := by
    intro c
    change st.calls.contains c = false
    rw [none]
    rfl
  refine ⟨h, st, hr, counts, told, left, cut, idle, fun a ha => ?_,
    balanced_of_run (Machine.run_of_play hr)⟩
  exact of_decide_eq_true (List.all_eq_true.mp short a ha)

end ChangeRelay.Dispatch
