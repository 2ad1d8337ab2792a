import ChangeRelay.Proofs.Reaction.Traceless
import Mathlib.Algebra.BigOperators.Group.List.Basic
import Mathlib.Algebra.Order.Ring.Nat
import Mathlib.Data.Finset.Card

/-!
# What a reaction handler has counted

Every invocation that comes in is counted once as received, and once more when it is known what
became of it: as applied, as a repetition of a known id, or as rejected. What has not been counted a
second time is in the hands of the pipeline, or its caller gave up while it was. The invocations in
hand are the deliveries that are being applied (`applying`), and a step takes one of them in, lets
one of them out, or leaves them as they are.

The signal to stop is raised by the application that makes the counter equal to the limit. That it is
up from then on, and not only when the counter is equal, is because the total takes every value on
its way, and those up to the limit before the counter can drop a carry.

* **`balance_of_run`**: in every state, what was received is what was counted a second time, what
  was given up and what is in hand.
* **`stopped_iff`**: the signal is up iff enough invocations were applied.
* `shown_of_run`: the counters show the totals, as long as these fit into 64 bits.
* **`accounted_of_run`**: all of it, with what is counted of applied invocations.
-/

namespace ChangeRelay.Reaction

/-- Whether the pipeline has the delivery's invocation. -/
def Delivery.isApplying (d : Delivery) : Bool :=
  match d.phase with
  | .applying _ => true
  | _ => false

/-- The deliveries that are being applied. -/
def State.applying (st : State) : Finset CallId :=
  (st.deliveries.keys.filter fun c => (st.deliveries.get? c).any Delivery.isApplying).toFinset

/-- Whether the caller of a delivery that is being applied gives up. -/
def isInterruption (m : Moment State Label Effect) : Bool :=
  match m.label with
  | .drop c => (m.before.deliveries.get? c).any Delivery.isApplying
  | _ => false

/-- How many deliveries were dropped while they were being applied. -/
def interruptions (h : History) : Nat := h.countP isInterruption

/-- What a handler has counted after `h`, and whether it signals to stop. -/
structure Accounted (s : Settings) (h : History) (st : State) : Prop where
  /-- Every invocation that came in is received. -/
  received : st.counts.received = ((machine s).arrivals h).length
  applied : st.counts.applied = (applied h).length
  added : st.counts.added = ((Reaction.applied h).map fun a => a.payload.added.length).sum
  updated : st.counts.updated = ((Reaction.applied h).map fun a => a.payload.updated.length).sum
  deleted : st.counts.deleted = ((Reaction.applied h).map fun a => a.payload.deleted.length).sum
  /-- When no delivery is in progress, every invocation that came in has been counted a second time,
  unless it was dropped while it was being applied. -/
  settled : (∀ c, (machine s).busy st c = false) → st.counts.received =
    st.counts.applied + st.counts.duplicates + st.counts.rejected + interruptions h
  /-- The signal is up if and only if enough invocations were applied. -/
  stopped : ∀ limit, s.stopAfter = some limit → 1 ≤ limit.toNat →
    (st.stopped = true ↔ limit.toNat ≤ (Reaction.applied h).length)
  /-- Without a limit it is never up. -/
  unlimited : s.stopAfter = none → st.stopped = false
  /-- Only an application raises it. -/
  raised : ∀ {l st' es}, step s st l = some (st', es) → st.stopped = false → st'.stopped = true →
    ∃ c x a, l = .answer c .taken ∧ st.deliveries.get? c = some ⟨x, .applying a⟩
  /-- Nothing lowers it. -/
  kept : ∀ {h' st'}, (machine s).Run (h ++ h') st' → st.stopped = true → st'.stopped = true
  /-- The counters show the totals, if their 64 bits can count all invocations and all records of
  those that were applied. -/
  shown : ((machine s).arrivals h).length < UInt64.size →
    ((Reaction.applied h).map fun a => a.payload.added.length + a.payload.updated.length +
      a.payload.deleted.length).sum < UInt64.size → st.counts.shown = st.counts

variable {s : Settings} {st st' : State} {l : Label} {left : Left} {es : List Effect}
variable {h h' : History} {c : CallId}

/-! ## The deliveries that are being applied -/

theorem isApplying_iff {d? : Option Delivery} :
    d?.any Delivery.isApplying = true ↔ ∃ x a, d? = some ⟨x, .applying a⟩ := by
  cases d? with
  | none => simp
  | some d =>
    obtain ⟨x, phase⟩ := d
    cases phase <;> simp [Delivery.isApplying]

theorem mem_applying :
    c ∈ st.applying ↔ ∃ x a, st.deliveries.get? c = some ⟨x, .applying a⟩ := by
  rw [State.applying, List.mem_toFinset, List.mem_filter, isApplying_iff, Table.mem_keys_iff]
  refine and_iff_right_of_imp ?_
  rintro ⟨x, a, at_⟩
  rw [at_]
  rfl

/-- A step changes what is said of the delivery that takes it. -/
theorem After.mem_applying (after : After st l.id left st') : c ∈ st'.applying ↔
    if c = l.id then ∃ x a, left.delivery? = some ⟨x, .applying a⟩ else c ∈ st.applying := by
  rw [Reaction.mem_applying]
  by_cases hc : c = l.id
  · rw [if_pos hc, after.deliveries, if_pos hc]
  · rw [if_neg hc, Reaction.mem_applying]
    simp only [after.applying hc]

/-- A delivery that is handed to the pipeline is one more. -/
theorem After.card_handed (after : After st l.id left st') {x : String} {a : Invocation}
    (free : l.id ∉ st.applying) (applying : left.delivery? = some ⟨x, .applying a⟩) :
    st'.applying.card = st.applying.card + 1 := by
  have grown : st'.applying = insert l.id st.applying := by
    ext c
    rw [after.mem_applying, Finset.mem_insert]
    by_cases hc : c = l.id
    · simp [hc, applying]
    · simp [hc]
  rw [grown, Finset.card_insert_of_notMem free]

/-- A delivery that ends while it is being applied is one less. -/
theorem After.card_ends (after : After st l.id left st') (own : l.id ∈ st.applying)
    (ends : left.delivery? = none) : st'.applying.card + 1 = st.applying.card := by
  have shrunk : st'.applying = st.applying.erase l.id := by
    ext c
    rw [after.mem_applying, Finset.mem_erase]
    by_cases hc : c = l.id
    · simp [hc, ends]
    · simp [hc]
  rw [shrunk, Finset.card_erase_add_one own]

/-- A delivery that is not being applied, neither before nor after, makes no difference. -/
theorem After.card_aside (after : After st l.id left st') (idle : l.id ∉ st.applying)
    (aside : ∀ x a, left.delivery? ≠ some ⟨x, .applying a⟩) :
    st'.applying.card = st.applying.card := by
  have same : st'.applying = st.applying := by
    ext c
    rw [after.mem_applying]
    by_cases hc : c = l.id
    · simp [hc, idle, aside]
    · simp [hc]
  rw [same]

/-! ## The balance -/

theorem interruptions_concat (h : History) (m : Moment State Label Effect) :
    interruptions (h ++ [m]) = interruptions h + if isInterruption m then 1 else 0 := by
  rw [interruptions, List.countP_append, List.countP_singleton]
  rfl

theorem interruptions_drop {m : Moment State Label Effect} {x : String} {a : Invocation}
    (hl : m.label = .drop c) (at_ : m.before.deliveries.get? c = some ⟨x, .applying a⟩) :
    interruptions (h ++ [m]) = interruptions h + 1 := by
  have interrupts : isInterruption m = true := by
    unfold isInterruption
    rw [hl]
    exact isApplying_iff.mpr ⟨x, a, at_⟩
  rw [interruptions_concat, if_pos interrupts]

theorem interruptions_other {m : Moment State Label Effect}
    (other : ∀ c x a, m.label = .drop c → m.before.deliveries.get? c ≠ some ⟨x, .applying a⟩) :
    interruptions (h ++ [m]) = interruptions h := by
  have none : isInterruption m = false := by
    unfold isInterruption
    split
    · next c hl =>
      rw [Bool.eq_false_iff]
      intro applying
      obtain ⟨x, a, at_⟩ := isApplying_iff.mp applying
      exact other c x a hl at_
    · rfl
  rw [interruptions_concat, none]
  rfl

/-- **What was received** is what was counted a second time, what was given up, and what is in the
hands of the pipeline. -/
theorem balance_of_run (run : (machine s).Run h st) : st.counts.received =
    st.counts.applied + st.counts.duplicates + st.counts.rejected + interruptions h +
      st.applying.card := by
  induction run with
  | start => rfl
  | @next h st st' l es run hs ih =>
    obtain ⟨left, after, booked⟩ := step_booked hs
    have fresh (hr : l.request?.isSome = true) : l.id ∉ st.applying := by
      intro own
      obtain ⟨x, a, at_⟩ := mem_applying.mp own
      rw [request?_eq_none hs at_] at hr
      exact absurd hr (by simp)
    have quiet (hl : ∀ c, l ≠ .drop c) :
        interruptions (h ++ [next s h st l es]) = interruptions h :=
      interruptions_other fun c _ _ e => absurd e (hl c)
    generalize st'.counts = counts at booked
    cases booked with
    | refused ends =>
      have card := after.card_aside (fresh rfl) (by simp [ends])
      rw [quiet (by simp)]
      simp only [Counts.reject, Counts.receive]
      omega
    | repeated aside =>
      have card := after.card_aside (fresh rfl) aside
      rw [quiet (by simp)]
      simp only [Counts.duplicate, Counts.receive]
      omega
    | handed applying =>
      have card := after.card_handed (fresh rfl) applying
      rw [quiet (by simp)]
      simp only [Counts.receive]
      omega
    | failed at_ ends =>
      have card := after.card_ends (mem_applying.mpr ⟨_, _, at_⟩) ends
      rw [quiet (by simp)]
      simp only [Counts.reject]
      omega
    | applied at_ ends =>
      have card := after.card_ends (mem_applying.mpr ⟨_, _, at_⟩) ends
      rw [quiet (by simp)]
      simp only [Counts.apply]
      omega
    | interrupted at_ ends =>
      have card := after.card_ends (mem_applying.mpr ⟨_, _, at_⟩) ends
      rw [interruptions_drop rfl at_]
      omega
    | aside old unanswered at_ idle ends =>
      have out : ∀ x a, st.deliveries.get? l.id ≠ some ⟨x, .applying a⟩ := by
        rintro x a at_'
        obtain rfl := Option.some.inj (at_.symm.trans at_')
        exact idle a rfl
      have card := after.card_aside (by simp [mem_applying, out]) (by simp [ends])
      rw [interruptions_other fun c x a hl => by obtain rfl : l = .drop c := hl; exact out x a]
      omega

/-- Every invocation that comes in is received. -/
theorem received_of_run (run : (machine s).Run h st) :
    st.counts.received = ((machine s).arrivals h).length := by
  induction run with
  | start => rfl
  | @next h st st' l es run hs ih =>
    obtain ⟨left, -, booked⟩ := step_booked hs
    have comes {i : Wire.Invocation} (hr : l.request? = some i) :
        ((machine s).arrivals (h ++ [next s h st l es])).length = st.counts.received + 1 := by
      rw [Machine.arrivals_concat_some (next s h st l es) hr, List.length_append, ih]
      rfl
    have none (hr : l.request? = none) :
        ((machine s).arrivals (h ++ [next s h st l es])).length = st.counts.received := by
      rw [Machine.arrivals_concat_none (next s h st l es) hr, ih]
    generalize st'.counts = counts at booked
    cases booked with
    | refused => exact (comes rfl).symm
    | repeated => exact (comes rfl).symm
    | handed => exact (comes rfl).symm
    | failed => exact (none rfl).symm
    | applied => exact (none rfl).symm
    | interrupted => exact (none rfl).symm
    | aside old => exact (none old).symm

/-! ## The signal to stop -/

theorem applied_of_run (run : (machine s).Run h st) :
    st.counts.applied = (applied h).length :=
  congrArg Counts.applied (settled_of_run run)

/-- **The signal is up** if and only if enough invocations were applied. -/
theorem stopped_iff (run : (machine s).Run h st) {limit : UInt64} (hs : s.stopAfter = some limit)
    (positive : 1 ≤ limit.toNat) : st.stopped = true ↔ limit.toNat ≤ (applied h).length := by
  rw [← applied_of_run run]
  induction run with
  | start => exact iff_of_false (by simp [machine, State.start]) (Nat.not_le.mpr positive)
  | @next h st st' l es run step ih =>
    rw [step_stopped step, ih]
    rcases step_counts step with ⟨settled, other⟩ | ⟨x, a, hl, -, counts⟩
    · have same : st'.counts.applied = st.counts.applied := by
        have applied := congrArg Counts.applied settled
        exact applied
      rw [same]
      refine or_iff_left ?_
      rintro ⟨⟨c, hl⟩, -⟩
      exact other c hl
    · have more : st'.counts.applied = st.counts.applied + 1 := by
        rw [counts]
        rfl
      rw [more]
      constructor
      · rintro (reached | ⟨-, limit', hs', rfl⟩)
        · omega
        · obtain rfl := Option.some.inj (hs.symm.trans hs')
          rw [UInt64.toNat_ofNat']
          exact Nat.mod_le _ _
      · intro reached
        by_cases before : limit.toNat ≤ st.counts.applied
        · exact .inl before
        · have exact_ : st.counts.applied + 1 = limit.toNat := by omega
          exact .inr ⟨⟨l.id, hl⟩, limit, hs, by rw [exact_, UInt64.ofNat_toNat]⟩

theorem not_stopped (run : (machine s).Run h st) (hs : s.stopAfter = none) :
    st.stopped = false := by
  induction run with
  | start => rfl
  | @next h st st' l es run step ih =>
    rw [Bool.eq_false_iff, ne_eq, step_stopped step, ih, hs]
    simp

/-- What is up stays up. -/
theorem stopped_later (run : (machine s).Run h st) (run' : (machine s).Run (h ++ h') st')
    (up : st.stopped = true) : st'.stopped = true := by
  induction h' using List.reverseRecOn generalizing st' with
  | nil =>
    rw [List.append_nil] at run'
    rwa [← run.unique run']
  | append_singleton h' m ih =>
    rw [← List.append_assoc] at run'
    obtain ⟨st₁, l, es, run₁, step, -⟩ := run'.last
    exact (step_stopped step).mpr (.inl (ih run₁))

/-! ## The accounts -/

/-- The records that were counted are those of the applied invocations. -/
theorem records_of_run (run : (machine s).Run h st) :
    st.counts.added = ((applied h).map fun a => a.payload.added.length).sum ∧
      st.counts.updated = ((applied h).map fun a => a.payload.updated.length).sum ∧
        st.counts.deleted = ((applied h).map fun a => a.payload.deleted.length).sum := by
  have settled := settled_of_run run
  rw [← List.length_flatMap, ← List.length_flatMap, ← List.length_flatMap]
  exact ⟨congrArg Counts.added settled, congrArg Counts.updated settled,
    congrArg Counts.deleted settled⟩

/-- The counters show the totals, if there are fewer invocations, and fewer records in those that
were applied, than 64 bits can count. -/
theorem shown_of_run (run : (machine s).Run h st)
    (calls : ((machine s).arrivals h).length < UInt64.size)
    (records : ((applied h).map fun a => a.payload.added.length + a.payload.updated.length +
      a.payload.deleted.length).sum < UInt64.size) : st.counts.shown = st.counts := by
  have received := received_of_run run
  have balance := balance_of_run run
  obtain ⟨added, updated, deleted⟩ := records_of_run run
  rw [List.sum_map_add, List.sum_map_add] at records
  unfold Counts.shown
  rw [Nat.mod_eq_of_lt (by omega), Nat.mod_eq_of_lt (by omega), Nat.mod_eq_of_lt (by omega),
    Nat.mod_eq_of_lt (by omega), Nat.mod_eq_of_lt (by omega), Nat.mod_eq_of_lt (by omega),
    Nat.mod_eq_of_lt (by omega)]

/-- **What a handler has counted**, and when it signals to stop. -/
theorem accounted_of_run (run : (machine s).Run h st) : Accounted s h st where
  received := received_of_run run
  applied := applied_of_run run
  added := (records_of_run run).1
  updated := (records_of_run run).2.1
  deleted := (records_of_run run).2.2
  settled idle := by
    have none : st.applying = ∅ := by
      refine Finset.eq_empty_of_forall_notMem fun c hc => ?_
      obtain ⟨x, a, at_⟩ := mem_applying.mp hc
      exact absurd ((idle c).symm.trans (busy_of_get? s at_)) (by simp)
    rw [balance_of_run run, none, Finset.card_empty, Nat.add_zero]
  stopped limit hs positive := stopped_iff run hs positive
  unlimited := not_stopped run
  raised {l st' es} step down up := by
    rcases (step_stopped step).mp up with up | ⟨⟨c, rfl⟩, -⟩
    · exact absurd (down.symm.trans up) (by simp)
    · rcases step_counts step with ⟨-, other⟩ | ⟨x, a, -, at_, -⟩
      · exact absurd rfl (other c)
      · exact ⟨c, x, a, rfl, at_⟩
  kept := stopped_later run
  shown := shown_of_run run

namespace Sample

/-- To stop after two invocations. -/
def limited : Settings := { settings with stopAfter := some 2 }

/-- Two new records, and one that goes. -/
def changing (id : String) : Wire.Invocation :=
  { invocation id with payload := some ⟨0, [.empty, .empty], [], [.empty]⟩ }

/-- The first delivery of "x" fails with another one waiting for it, the next one is dropped, and
the one behind it is applied. Then "y" is applied, and an invocation without an id comes. -/
def session : List Label :=
  [.arrive 0 (changing "x"), .arrive 1 (changing "x"), .answer 0 (.failed .closed), .resume 1,
    .arrive 2 (changing "x"), .drop 2, .arrive 3 (changing "x"), .arrive 4 (changing "y"),
    .answer 3 .taken, .answer 4 .taken, .arrive 5 (changing "")]

end Sample

/-- Six invocations come in: two are applied, one is repeated, two are rejected, and one is
dropped. -/
theorem accounted_sample : ∃ h st, (machine Sample.limited).play Sample.session = some (h, st) ∧
    st.counts = ⟨6, 2, 1, 2, 4, 0, 2⟩ ∧ interruptions h = 1 ∧ st.stopped = true ∧
    (∀ c, (machine Sample.limited).busy st c = false) ∧ Accounted Sample.limited h st := by
  have played : ((machine Sample.limited).play Sample.session).map (fun r =>
      (r.2.counts, interruptions r.1, r.2.stopped, r.2.deliveries)) =
      some (⟨6, 2, 1, 2, 4, 0, 2⟩, 1, true, .empty) := by
    decide +kernel
  obtain ⟨⟨h, st⟩, hr, facts⟩ := Option.map_eq_some_iff.mp played
  obtain ⟨counts, facts⟩ := Prod.mk.inj facts
  obtain ⟨interrupted, facts⟩ := Prod.mk.inj facts
  obtain ⟨stopped, none⟩ := Prod.mk.inj facts
  have idle : ∀ c, (machine Sample.limited).busy st c = false := by
    intro c
    change st.deliveries.contains c = false
    rw [none]
    rfl
  exact ⟨h, st, hr, counts, interrupted, stopped, idle,
    accounted_of_run (Machine.run_of_play hr)⟩

end ChangeRelay.Reaction
