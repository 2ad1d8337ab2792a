import ChangeRelay.Proofs.Dispatch.History

/-!
# Streams and the pipeline agree

The last number of a stream is kept beside the pipeline, and changes in a step of its own; calls are
dropped and interleave, and the pipeline may fail. `Agreement` says what holds in every state all
the same, also between two steps of a call. In `forward_one` the number is set behind the wait for
the sink, so a call that is dropped there has not set it.

* **`agreement_of_run`**: after every run the stream of every source agrees with what the pipeline
  took of it.
-/

namespace ChangeRelay.Dispatch

/-- The pipeline did not take the event on offer: an error, or no verdict in time. -/
def Fails (m : Moment State Label Effect) (index : Nat) : Prop :=
  ∃ id fault w event, m.label = .answer id (.failed fault) ∧
    m.before.calls.get? id = some ⟨w, .offering event⟩ ∧ w.tally.decided = index

/-- The stream of `x` agrees with what the pipeline took of `x`. -/
structure Agreement (s : Settings) (h : History) (st : State) (x : String) : Prop where
  last : st.last? x = (reached h x).getLast?.map fun t => t.event.sequence
  ordered : (reached h x).Pairwise fun a b => a.event.sequence ≤ b.event.sequence
  /-- What was taken is the checked form of an event that was submitted on this source. -/
  submitted : ∀ t ∈ reached h x, ∃ id r e, Submitted s h x t id r e
  /-- No event that was submitted was taken twice. -/
  once : ((reached h x).map Taken.place).Nodup
  /-- An event reported as rejected is not in the pipeline. -/
  rejected : ∀ m ∈ h, ∀ r, Reports m r → (m.call, r.index) ∉ (reached h x).map Taken.place
  failed : ∀ m ∈ h, ∀ index, Fails m index → (m.call, index) ∉ (reached h x).map Taken.place

variable {s : Settings} {st st' : State} {l : Label} {left : Left} {es : List Effect}
variable {h : History}

/-! ## The last number -/

/-- Where nothing is taken of a source its number stays. -/
theorem last?_kept (o : Orderly st) (m : Move s st l left es) (after : After st l.id left st')
    {n : Nat} {x : String} (hx : ∀ t, taken? ⟨n, l, st, es⟩ = some t → t.source ≠ x) :
    st'.last? x = st.last? x := by
  rw [after.last?]
  split
  · next hs =>
    subst hs
    rcases m.last?_spec o with ⟨hl, -⟩ | ⟨walk, event, hl, at_, hw, -⟩
    · exact hl
    · refine absurd hw.symm (hx ⟨n, walk.tally.decided, walk.source, event⟩ ?_)
      unfold taken?
      simp only
      rw [hl]
      simp only
      rw [at_]
  · rfl

/-- An event that is taken gives its number to its source, which had none above it. -/
theorem last?_taken (o : Orderly st) (m : Move s st l left es) (after : After st l.id left st')
    {n : Nat} {t : Taken} (ht : taken? ⟨n, l, st, es⟩ = some t) :
    st'.last? t.source = some t.event.sequence ∧
      ∀ last, st.last? t.source = some last → last ≤ t.event.sequence := by
  obtain ⟨walk, event, last?, w, at_, rfl, hx, -, hl, -⟩ := m.takes o ht
  obtain ⟨e, es, -, hex⟩ := o.offer at_
  refine ⟨?_, (check_of_examine hex).2⟩
  rw [after.last?, if_pos hx.symm]
  exact hl

theorem last_of_run (run : (machine s).Run h st) (x : String) :
    st.last? x = (reached h x).getLast?.map fun t => t.event.sequence := by
  induction run with
  | start => rfl
  | @next h st st' l es run hs ih =>
    obtain ⟨left, m, after⟩ := step_move hs
    have o := orderly_of_run run
    rw [reached_concat]
    cases ht : taken? (next s h st l es) with
    | none =>
      have none : ∀ t, taken? (next s h st l es) = some t → t.source ≠ x := fun t h' =>
        absurd (ht.symm.trans h') (by simp)
      rw [last?_kept o m after none, ih]
      simp
    | some t =>
      by_cases hx : t.source = x
      · subst hx
        rw [(last?_taken o m after ht).1]
        simp
      · have other : ∀ t, taken? (next s h st l es) = some t → t.source ≠ x := fun t' h' => by
          rwa [← Option.some.inj (ht.symm.trans h')]
        rw [last?_kept o m after other, ih]
        simp [hx]

/-- In an ordered list nothing lies above the last. -/
theorem le_of_getLast? {ts : List Taken} {last : UInt64}
    (ordered : ts.Pairwise fun a b => a.event.sequence ≤ b.event.sequence)
    (h : ts.getLast?.map (fun t => t.event.sequence) = some last) {t : Taken} (ht : t ∈ ts) :
    t.event.sequence ≤ last := by
  obtain ⟨b, hb, rfl⟩ := Option.map_eq_some_iff.mp h
  obtain ⟨pre, rfl⟩ := List.getLast?_eq_some_iff.mp hb
  rcases List.mem_append.mp ht with ht | ht
  · exact (List.pairwise_append.mp ordered).2.2 t ht b (by simp)
  · rw [List.mem_singleton.mp ht]
    exact UInt64.le_refl _

theorem ordered_of_run (run : (machine s).Run h st) (x : String) :
    (reached h x).Pairwise fun a b => a.event.sequence ≤ b.event.sequence := by
  induction run with
  | start => exact .nil
  | @next h st st' l es run hs ih =>
    obtain ⟨left, m, after⟩ := step_move hs
    have o := orderly_of_run run
    rw [reached_concat, List.pairwise_append]
    refine ⟨ih, ?_, fun a ha b hb => ?_⟩
    · exact ((taken? _).pairwise_toList).filter _
    · rw [List.mem_filter, Option.mem_toList, decide_eq_true_eq] at hb
      obtain ⟨hb, rfl⟩ := hb
      have hlast := last_of_run run b.source
      cases hg : st.last? b.source with
      | none =>
        rw [hg] at hlast
        have := Option.map_eq_none_iff.mp hlast.symm
        rw [List.getLast?_eq_none_iff.mp this] at ha
        exact absurd ha (by simp)
      | some last =>
        rw [hg] at hlast
        exact UInt64.le_trans (le_of_getLast? ih hlast.symm ha)
          ((last?_taken o m after hb).2 last hg)

/-! ## What was rejected -/

theorem not_reached_of_reports (run : (machine s).Run h st) (x : String)
    {m : Moment State Label Effect} (hm : m ∈ h) {r : Rejection} (hr : Reports m r) :
    (m.call, r.index) ∉ (reached h x).map Taken.place := by
  intro hmem
  obtain ⟨t, ht, e⟩ := List.mem_map.mp hmem
  obtain ⟨hc, hi⟩ := Prod.mk.inj e
  exact (ledger_of_run run).apart t (mem_reached.mp ht).1 m hm hc.symm r hr hi.symm

/-- A verdict against the event on offer is reported. -/
theorem reports_of_fails (run : (machine s).Run h st) {m : Moment State Label Effect}
    (hm : m ∈ h) {index : Nat} (hf : Fails m index) : ∃ r, Reports m r ∧ r.index = index := by
  obtain ⟨pre, post, rfl⟩ := List.append_of_mem hm
  obtain ⟨-, -, st', hs⟩ := run.before
  obtain ⟨left, move, -⟩ := step_move hs
  obtain ⟨call, label, before, effects⟩ := m
  simp only at move
  obtain ⟨id, fault, w, event, hl, at_, rfl⟩ := hf
  simp only at hl at_
  subst hl
  cases move with
  | work at_' works =>
    cases works with
    | answer _ phase =>
      obtain rfl := Option.some.inj (at_.symm.trans at_')
      obtain rfl := Phase.offering.inj phase
      obtain ⟨r, hr, hi⟩ := settle_failed_index s (before.last? w.source) w event fault
      let stopped := (w.settle s (before.last? w.source) event (.failed fault)).2
      refine ⟨r, ⟨stopped.walk.source, ?_⟩, hi⟩
      exact List.mem_append_left _ (List.mem_map.mpr ⟨r, hr, rfl⟩)

/-- **The stream of every source agrees with the pipeline**, after every run. -/
theorem agreement_of_run (run : (machine s).Run h st) (x : String) : Agreement s h st x where
  last := last_of_run run x
  ordered := ordered_of_run run x
  submitted := fun t ht => by
    have hp := mem_reached.mp ht
    obtain rfl := hp.2
    exact submitted_of_run run hp.1
  once := (ledger_of_run run).once.sublist (List.filter_sublist.map _)
  rejected := fun m hm r hr => not_reached_of_reports run x hm hr
  failed := fun m hm index hf => by
    obtain ⟨r, hr, rfl⟩ := reports_of_fails run hm hf
    exact not_reached_of_reports run x hm hr

/-- The sample: of its first source one event of each call is in the pipeline. -/
theorem agreement_sample : ∃ h st, (machine Sample.settings).play Sample.labels = some (h, st) ∧
    (reached h "a").map Taken.place = [(0, 0), (1, 1)] ∧
    Agreement Sample.settings h st "a" := by
  have played : ((machine Sample.settings).play Sample.labels).map
      (fun r => (reached r.1 "a").map Taken.place) = some [(0, 0), (1, 1)] := by
    decide +kernel
  obtain ⟨⟨h, st⟩, hr, reached⟩ := Option.map_eq_some_iff.mp played
  exact ⟨h, st, hr, reached, agreement_of_run (Machine.run_of_play hr) "a"⟩

end ChangeRelay.Dispatch
