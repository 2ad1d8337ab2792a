import ChangeRelay.Proofs.Batching.Course
import Mathlib.Algebra.Order.Ring.Nat
import Mathlib.Data.List.Induction

/-!
# What a monitor measures

A monitor forgets batches when a new one is recorded, and only from the front, as long as they have
left the window. When throughput is measured, time has gone on, and the batches are looked through
again. Beside it stands the history of all batches that were ever recorded: as long as time does not
go backwards, a monitor measures what the whole history gives.

`Remembers` is the invariant: a monitor has those batches of the history that lay in its window when
the last one was recorded, which is when `expire` drops the others. A batch that had left it by then
never comes back.

* `dropWhile_eq_filter`: in order of time, to drop from the front is to drop all that is too old.
* **`Remembers.record`**: what a recording preserves.
* **`measures_of_times`**: throughput is that of the whole history.
* `Steps.target_eq`: so the target of a batch is set by all the batches that came out before.
-/

namespace ChangeRelay.Batching

namespace Monitor

/-- What a monitor is used for. -/
inductive Use
  /-- A batch of this size is recorded. -/
  | record (now : Nat) (size : UInt64)
  /-- Throughput is measured. -/
  | measure (now : Nat)
deriving DecidableEq, Repr

namespace Use

def time : Use → Nat
  | .record now _ => now
  | .measure now => now

/-- The batch that is recorded. -/
def delivery? : Use → Option Delivery
  | .record now size => some ⟨now, size⟩
  | .measure _ => none

end Use

/-- A use of a monitor; to measure leaves it as it is. -/
def use (m : Monitor) : Use → Monitor
  | .record now size => m.record now size
  | .measure _ => m

/-- A new monitor after these uses. -/
def after (window : Duration) (us : List Use) : Monitor := us.foldl use (.ofWindow window)

/-- All batches that were recorded, the oldest first. -/
def history (us : List Use) : List Delivery := us.filterMap Use.delivery?

/-- A monitor that has forgotten none of these batches. -/
def entire (window : Duration) (ds : List Delivery) : Monitor :=
  { ofWindow window with deliveries := ds }

/-- Whether a batch is younger than a window, which has at least a millisecond. -/
def isYoung (window : Duration) (now : Nat) (d : Delivery) : Bool :=
  now - d.time < max window (.ofMillis 1)

/-- The number of items in the batches that are younger than a window, however large it is. -/
def itemsWithin (window : Duration) (now : Nat) (ds : List Delivery) : Nat :=
  ((ds.filter (isYoung window now)).map fun d => d.size.toNat).sum

variable {window : Duration} {now t : Nat} {size : UInt64} {m : Monitor} {ds : List Delivery}

/-! ## Batches in order of time -/

/-- In order of time. -/
def Ordered (ds : List Delivery) : Prop := ds.Pairwise fun d d' => d.time ≤ d'.time

theorem isFresh_eq (h : m.window = max window (.ofMillis 1)) (now : Nat) :
    m.isFresh now = isYoung window now := by
  funext d
  rw [isFresh, isYoung, h]

/-- A batch does not become younger. -/
theorem isYoung_earlier {d : Delivery} (later : t ≤ now) (young : isYoung window now d = true) :
    isYoung window t d = true := by
  simp only [isYoung, decide_eq_true_eq] at young ⊢
  omega

/-- Nor is one younger that was delivered before. -/
theorem isYoung_later {d d' : Delivery} (before : d.time ≤ d'.time)
    (young : isYoung window now d = true) : isYoung window now d' = true := by
  simp only [isYoung, decide_eq_true_eq] at young ⊢
  omega

/-- What was too old at a time need not be looked at later. -/
theorem filter_young (later : t ≤ now) (ds : List Delivery) :
    (ds.filter (isYoung window t)).filter (isYoung window now) =
      ds.filter (isYoung window now) := by
  rw [List.filter_filter]
  refine List.filter_congr fun d _ => ?_
  rw [Bool.and_eq_left_iff_imp]
  exact isYoung_earlier later

/-- **To drop from the front** is to drop all that is too old. -/
theorem dropWhile_eq_filter (ordered : Ordered ds) :
    ds.dropWhile (fun d => !isYoung window now d) = ds.filter (isYoung window now) := by
  induction ds with
  | nil => rfl
  | cons d ds ih =>
    obtain ⟨before, ordered⟩ := List.pairwise_cons.mp ordered
    cases young : isYoung window now d with
    | false =>
      rw [List.dropWhile_cons_of_pos (by simp [young]), List.filter_cons_of_neg (by simp [young])]
      exact ih ordered
    | true =>
      have all : ∀ d' ∈ d :: ds, isYoung window now d' = true :=
        List.forall_mem_cons.mpr ⟨young, fun d' mem => isYoung_later (before d' mem) young⟩
      rw [List.dropWhile_cons_of_neg (by simp [young]), List.filter_eq_self.mpr all]

/-! ## What is remembered -/

/-- A monitor remembers those batches of a history that were young when the last one was recorded,
at `t`. -/
structure Remembers (window : Duration) (ds : List Delivery) (t : Nat) (m : Monitor) : Prop where
  window_eq : m.window = max window (.ofMillis 1)
  ordered : Ordered ds
  past : ∀ d ∈ ds, d.time ≤ t
  deliveries : m.deliveries = ds.filter (isYoung window t)

theorem remembers_start (window : Duration) : Remembers window [] 0 (ofWindow window) :=
  ⟨rfl, .nil, nofun, rfl⟩

theorem ordered_concat (ordered : Ordered ds) (past : ∀ d ∈ ds, d.time ≤ now) :
    Ordered (ds ++ [⟨now, size⟩]) := by
  refine List.pairwise_append.mpr ⟨ordered, List.pairwise_singleton _ _, fun d mem d' mem' => ?_⟩
  rw [List.mem_singleton.mp mem']
  exact past d mem

/-- **What a recording preserves.** -/
theorem Remembers.record (remembers : Remembers window ds t m) (later : t ≤ now) (size : UInt64) :
    Remembers window (ds ++ [⟨now, size⟩]) now (m.record now size) := by
  obtain ⟨window_eq, ordered, past, deliveries⟩ := remembers
  have past : ∀ d ∈ ds, d.time ≤ now := fun d mem => Nat.le_trans (past d mem) later
  have whole : Ordered (ds ++ [⟨now, size⟩]) := ordered_concat ordered past
  -- What is remembered is a part of the history, so it is in order too.
  have part : Ordered (ds.filter (isYoung window t) ++ [⟨now, size⟩]) :=
    whole.sublist (List.filter_sublist.append_right _)
  refine ⟨window_eq, whole, ?_, ?_⟩
  · exact List.forall_mem_append.mpr ⟨past, List.forall_mem_singleton.mpr (Nat.le_refl _)⟩
  · change (m.deliveries ++ [Delivery.mk now size]).dropWhile (fun d => !m.isFresh now d) = _
    rw [isFresh_eq window_eq, deliveries, dropWhile_eq_filter part, List.filter_append,
      filter_young later, List.filter_append]

/-- What lies in the window later on is what of the whole history does, -/
theorem Remembers.total_eq (remembers : Remembers window ds t m) (later : t ≤ now) :
    m.total now = items (ds.filter (isYoung window now)) := by
  rw [total, isFresh_eq remembers.window_eq, remembers.deliveries, filter_young later]

theorem entire_total (window : Duration) (ds : List Delivery) (now : Nat) :
    (entire window ds).total now = items (ds.filter (isYoung window now)) := by
  rw [total, isFresh_eq rfl]
  rfl

/-- so throughput is that of the whole history. -/
theorem Remembers.rate_eq (remembers : Remembers window ds t m) (later : t ≤ now) :
    m.rate now = (entire window ds).rate now := by
  rw [rate, rate, remembers.total_eq later, entire_total, remembers.window_eq]
  rfl

theorem after_concat (window : Duration) (us : List Use) (u : Use) :
    after window (us ++ [u]) = (after window us).use u := List.foldl_append

theorem history_concat (us : List Use) (u : Use) :
    history (us ++ [u]) = history us ++ u.delivery?.toList := by
  rw [history, List.filterMap_append]
  cases u <;> rfl

/-- **What a monitor remembers**, whatever it was used for until `now`. By induction on its uses from
the last one, whose time bounds the times of those before it. -/
theorem remembers_after {us : List Use} (times : us.Pairwise fun u u' => u.time ≤ u'.time)
    (past : ∀ u ∈ us, u.time ≤ now) :
    ∃ t ≤ now, Remembers window (history us) t (after window us) := by
  induction us using List.reverseRecOn generalizing now with
  | nil => exact ⟨0, Nat.zero_le _, remembers_start window⟩
  | append_singleton us u ih =>
    obtain ⟨times, -, before⟩ := List.pairwise_append.mp times
    obtain ⟨t, later, remembers⟩ :=
      ih times fun v mem => before v mem u (List.mem_singleton_self u)
    have last : u.time ≤ now := past u (List.mem_append_right _ (List.mem_singleton_self u))
    rw [after_concat, history_concat]
    cases u with
    | record time size => exact ⟨time, last, remembers.record later size⟩
    | measure time => exact ⟨t, Nat.le_trans later last, (List.append_nil _).symm ▸ remembers⟩

section Split

variable {us pre post : List Use} {u : Use} (times : us.Pairwise fun u u' => u.time ≤ u'.time)
include times

/-- What a monitor remembers when it comes to one of its uses, -/
theorem remembers_before (split : us = pre ++ u :: post) (window : Duration) :
    ∃ t ≤ u.time, Remembers window (history pre) t (after window pre) := by
  rw [split] at times
  obtain ⟨before, -, later⟩ := List.pairwise_append.mp times
  exact remembers_after before fun v mem => later v mem u List.mem_cons_self

/-- and when it has recorded a batch. -/
theorem remembers_recorded (split : us = pre ++ .record now size :: post) (window : Duration) :
    Remembers window (history (pre ++ [.record now size])) now
      (after window (pre ++ [.record now size])) := by
  obtain ⟨t, later, remembers⟩ := remembers_before times split window
  rw [after_concat, history_concat]
  exact remembers.record later size

end Split

/-! ## What is measured -/

theorem toNat_items (ds : List Delivery) :
    (items ds).toNat = (ds.map fun d => d.size.toNat).sum % UInt64.size := by
  induction ds with
  | nil => rfl
  | cons d ds ih =>
    rw [items, UInt64.toNat_add, ih, List.map_cons, List.sum_cons]
    exact Nat.add_mod_mod _ _ _

/-- What a monitor measures and remembers in the course of its uses. -/
structure Measures (window : Duration) (us : List Use) : Prop where
  /-- When throughput is measured, the items are those of all batches so far that are younger than
  the window, counted in a word of 64 bits; -/
  total : ∀ {pre now post}, us = pre ++ .measure now :: post →
    ((after window pre).total now).toNat = itemsWithin window now (history pre) % UInt64.size
  /-- what was forgotten makes no difference to the rate. -/
  rate : ∀ {pre now post}, us = pre ++ .measure now :: post →
    (after window pre).rate now = (entire window (history pre)).rate now
  /-- When a batch has been recorded, those that are remembered are in order of time, -/
  ordered : ∀ {pre now size post}, us = pre ++ .record now size :: post →
    Ordered (after window (pre ++ [.record now size])).deliveries
  /-- each is younger than the window, -/
  inside : ∀ {pre now size post}, us = pre ++ .record now size :: post →
    ∀ d ∈ (after window (pre ++ [.record now size])).deliveries,
      now - d.time < max window (.ofMillis 1)
  /-- and no other batch so far is. -/
  kept : ∀ {pre now size post}, us = pre ++ .record now size :: post →
    (after window (pre ++ [.record now size])).deliveries =
      (history (pre ++ [.record now size])).filter (isYoung window now)

/-- **Throughput is that of the whole history**, whatever was forgotten, as long as time does not go
backwards. -/
theorem measures_of_times {us : List Use} (times : us.Pairwise fun u u' => u.time ≤ u'.time)
    (window : Duration) : Measures window us where
  total := by
    intro pre now post split
    obtain ⟨t, later, remembers⟩ := remembers_before times split window
    have counted : (after window pre).total now = _ := remembers.total_eq later
    rw [counted, toNat_items]
    rfl
  rate := by
    intro pre now post split
    obtain ⟨t, later, remembers⟩ := remembers_before times split window
    exact remembers.rate_eq later
  ordered := by
    intro pre now size post split
    have remembers := remembers_recorded times split window
    rw [remembers.deliveries]
    exact remembers.ordered.sublist List.filter_sublist
  inside := by
    intro pre now size post split d mem
    rw [(remembers_recorded times split window).deliveries] at mem
    exact of_decide_eq_true (List.mem_filter.mp mem).2
  kept := fun split => (remembers_recorded times split window).deliveries

/-- Two batches at once, and two later ones. No window counts as one of a millisecond, so at the age
of a millisecond a batch is too old, and a nanosecond before it is not. -/
def sampleUses : List Use :=
  [.record 0 10, .record 0 7, .record 600000 5, .measure 999999, .record 1000000 1,
    .measure 1000000, .measure 1600000]

theorem measures_sample : sampleUses.Pairwise (fun u u' => u.time ≤ u'.time) ∧
    Measures 0 sampleUses ∧ (after 0 (sampleUses.take 3)).total 999999 = 22 ∧
    (after 0 (sampleUses.take 5)).deliveries = [⟨600000, 5⟩, ⟨1000000, 1⟩] ∧
    (after 0 (sampleUses.take 5)).total 1000000 = 6 ∧
    (after 0 (sampleUses.take 6)).total 1600000 = 1 :=
  ⟨by decide, measures_of_times (by decide) 0, by decide, by decide, by decide, by decide⟩

end Monitor

/-! ## Targets -/

/-- What a look records: the batch that ended. -/
def Moment.recording? {α : Type} (m : Moment α) : Option Monitor.Use :=
  match m.label, m.batch? with
  | .look now, some items => some (.record now (.ofNat items.length))
  | _, _ => none

/-- The batches that came out, as a monitor records them. -/
def recordings {α : Type} (ms : List (Moment α)) : List Monitor.Use :=
  ms.filterMap Moment.recording?

theorem recordings_concat {α : Type} (ms : List (Moment α)) (m : Moment α) :
    recordings (ms ++ [m]) = recordings ms ++ m.recording?.toList := by
  rw [recordings, List.filterMap_append]
  cases h : m.recording? <;> simp [recordings, h]

namespace Batcher

variable {α : Type} {s : Settings} {width capacity now : Nat} {b : Batcher α}
variable {ms : List (Moment α)}

theorem adapt_monitor (b : Batcher α) (now : Nat) : (b.adapt now).monitor = b.monitor := by
  unfold adapt
  split <;> rfl

/-- A batcher's monitor has recorded the batches that came out, and nothing else. -/
theorem Steps.monitor_eq (steps : Steps capacity (ofSettings s width) ms b) :
    b.monitor = .after s.window (recordings ms) := by
  induction steps with
  | stop => rfl
  | @next ms b b' l r? _ h ih =>
    have same : b.monitor = .after s.window (recordings ms ++ []) := by
      rw [List.append_nil]
      exact ih
    rw [recordings_concat]
    cases step_moves h with
    | sends | closes => exact same
    | @looks now _ _ looks =>
      cases looks with
      | begins | breaks => exact (adapt_monitor _ now).trans same
      | takes | stops | waits | broken => exact same
      | @ends c has due =>
        change b.monitor.record now (.ofNat c.items.length) = _
        rw [ih]
        exact (Monitor.after_concat _ _ (.record now (.ofNat c.items.length))).symm

/-- **The target of a batch** that begins now is set by all the batches that came out before, whatever
has been forgotten of them. -/
theorem Steps.target_eq (steps : Steps capacity (ofSettings s width) ms b)
    (adaptive : s.adaptive = true)
    (times : (recordings ms).Pairwise fun u u' => u.time ≤ u'.time)
    (past : ∀ u ∈ recordings ms, u.time ≤ now) : (b.adapt now).target =
      s.target ((Monitor.entire s.window (Monitor.history (recordings ms))).level now) := by
  obtain ⟨t, later, remembers⟩ : ∃ t ≤ now,
      Monitor.Remembers s.window (Monitor.history (recordings ms)) t b.monitor :=
    steps.monitor_eq ▸ Monitor.remembers_after times past
  have rate := remembers.rate_eq later
  rw [adapt, steps.sound.settings, if_pos adaptive, Monitor.level, Monitor.level, rate]

end Batcher

end ChangeRelay.Batching
