import ChangeRelay.Dispatch.Walk

/-!
# What a walk passes over

A walk that goes on rejects some events in a row and then stops, with an event to offer or at its
end. `Halted.From` says how the place where it stops follows from the place where it stood; it holds
of `Walk.resume`, and of `Walk.settle` for either verdict. `Walk.Along` ties a walk to the events
of its call: what is left to do is what has not been decided.

* `resume_from`, `settle_failed`, `settle_taken`: where a walk stops.
* `advance_obeys`, `settle_obeys`: when it leaves events.
* `Halted.From.along`: it is still a walk along the same events.
-/

namespace ChangeRelay.Dispatch

/-- `h` is where a walk stops that goes on from `w` on a stream whose last number is `last?`. -/
structure Halted.From (w : Walk) (last? : Option UInt64) (h : Halted) : Prop where
  source : h.walk.source = w.source
  todo : h.walk.todo = w.todo.drop h.rejections.length
  length_le : h.rejections.length ≤ w.todo.length
  total : h.walk.tally.total = w.tally.total
  processed : h.walk.tally.processed = w.tally.processed
  rejected : h.walk.tally.rejected = w.tally.rejected + h.rejections.length
  indices : h.rejections.map Rejection.index = List.range' w.tally.decided h.rejections.length
  offer : ∀ event, h.halt = .offer event →
    ∃ e es, h.walk.todo = e :: es ∧ examine w.source last? e = .ok event

/-- A walk along `events`: those it has not decided are left to do. -/
structure Walk.Along (events : List Wire.Event) (w : Walk) : Prop where
  todo : w.todo = events.drop w.tally.decided
  total : w.tally.total = events.length
  decided_le : w.tally.decided ≤ events.length

/-- The walk after the event on offer was taken. -/
def Walk.taken (w : Walk) : Walk := ⟨w.source, w.todo.tail, w.tally.accept⟩

variable {s : Settings} {last? : Option UInt64} {w : Walk} {h : Halted}

theorem check_of_examine {source : String} {e : Wire.Event} {event : Event}
    (h : examine source last? e = .ok event) :
    e.check = .ok event ∧ ∀ last, last? = some last → last ≤ event.sequence := by
  unfold examine at h
  cases hc : e.check with
  | error cause => rw [hc] at h; exact absurd h (by simp)
  | ok checked =>
    rw [hc] at h
    cases last? with
    | none =>
      obtain rfl := Except.ok.inj h
      exact ⟨rfl, fun _ hl => absurd hl (by simp)⟩
    | some last =>
      simp only at h
      split at h
      · exact absurd h (by simp)
      · next hlt =>
        obtain rfl := Except.ok.inj h
        refine ⟨rfl, fun l hl => ?_⟩
        obtain rfl := Option.some.inj hl
        exact UInt64.not_lt.mp hlt

/-! ## Where a walk stops -/

/-- A rejection in front of a walk that goes on. -/
theorem Halted.From.cons {source : String} {e : Wire.Event} {es : List Wire.Event} {t : Tally}
    {r : Rejection} (hr : r.index = t.decided)
    (hf : h.From ⟨source, es, t.reject r.reason⟩ last?) :
    Halted.From ⟨source, e :: es, t⟩ last? { h with rejections := r :: h.rejections } where
  source := hf.source
  todo := hf.todo
  length_le := Nat.succ_le_succ hf.length_le
  total := hf.total
  processed := hf.processed
  rejected := by
    have := hf.rejected
    simp only [Tally.reject] at this
    simp only [List.length_cons]
    omega
  indices := by
    have hd : (t.reject r.reason).decided = t.decided + 1 := by
      simp [Tally.decided, Tally.reject, Nat.add_assoc]
    have := hf.indices
    simp only [hd] at this
    simp [List.range'_succ, this, hr]
  offer := hf.offer

/-- A rejection at which a walk ends. -/
theorem Halted.From.abort {source : String} {e : Wire.Event} {es : List Wire.Event} {t : Tally}
    {r : Rejection} (hr : r.index = t.decided) :
    Halted.From ⟨source, e :: es, t⟩ last? ⟨⟨source, es, t.reject r.reason⟩, [r], .done⟩ where
  source := rfl
  todo := rfl
  length_le := by simp
  total := rfl
  processed := rfl
  rejected := rfl
  indices := by simp [hr]
  offer := fun _ he => absurd he (by simp)

theorem advance_from (source : String) : ∀ (es : List Wire.Event) (t : Tally),
    (Walk.advance s source last? es t).From ⟨source, es, t⟩ last?
  | [], t => by
    unfold Walk.advance
    exact ⟨rfl, rfl, Nat.le_refl _, rfl, rfl, rfl, rfl, fun _ he => absurd he (by simp)⟩
  | e :: es, t => by
    unfold Walk.advance
    cases hx : examine source last? e with
    | ok event =>
      refine ⟨rfl, rfl, Nat.zero_le _, rfl, rfl, rfl, rfl, fun event' he => ⟨e, es, rfl, ?_⟩⟩
      obtain rfl := Halt.offer.inj he
      exact hx
    | error cause =>
      simp only
      cases s.failurePolicy with
      | abort => exact .abort (r := ⟨e.sequence, t.decided, cause.message⟩) rfl
      | proceed =>
        exact (advance_from source es _).cons (r := ⟨e.sequence, t.decided, cause.message⟩) rfl

/-- A walk goes on from where it stands. -/
theorem resume_from (s : Settings) (last? : Option UInt64) (w : Walk) :
    (w.resume s last?).From w last? := advance_from w.source w.todo w.tally

/-- **An event that the pipeline did not take** counts as one more rejection on the way, and the
stream's last number stays. -/
theorem settle_failed (s : Settings) (last? : Option UInt64) (event : Event)
    (fault : Pipeline.Fault) {e : Wire.Event} {es : List Wire.Event} (hw : w.todo = e :: es) :
    (w.settle s last? event (.failed fault)).1 = last? ∧
      (w.settle s last? event (.failed fault)).2.From w last? := by
  obtain ⟨source, todo, tally⟩ := w
  simp only at hw
  subst hw
  refine ⟨rfl, ?_⟩
  unfold Walk.settle
  simp only [List.tail_cons]
  cases s.failurePolicy with
  | abort => exact .abort (r := ⟨event.sequence, tally.decided, fault.message⟩) rfl
  | proceed =>
    exact (advance_from source es _).cons (r := ⟨event.sequence, tally.decided, fault.message⟩) rfl

/-- It is the first rejection on the way. -/
theorem settle_failed_index (s : Settings) (last? : Option UInt64) (w : Walk) (event : Event)
    (fault : Pipeline.Fault) :
    ∃ r ∈ (w.settle s last? event (.failed fault)).2.rejections, r.index = w.tally.decided := by
  unfold Walk.settle
  simp only
  cases s.failurePolicy with
  | abort => exact ⟨_, List.mem_cons_self, rfl⟩
  | proceed => exact ⟨_, List.mem_cons_self, rfl⟩

/-- **An event that the pipeline took** is accepted, and its number is the stream's last one. -/
theorem settle_taken (s : Settings) (last? : Option UInt64) (w : Walk) (event : Event) :
    (w.settle s last? event .taken).1 = some event.sequence ∧
      (w.settle s last? event .taken).2.From w.taken (some event.sequence) :=
  ⟨rfl, advance_from w.source w.todo.tail w.tally.accept⟩

theorem settle_source (s : Settings) (last? : Option UInt64) (w : Walk) (event : Event)
    (verdict : Pipeline.Verdict) : (w.settle s last? event verdict).2.walk.source = w.source := by
  cases verdict with
  | taken => exact (settle_taken s last? w event).2.source
  | failed fault =>
    unfold Walk.settle
    simp only
    cases s.failurePolicy with
    | abort => rfl
    | proceed => exact (advance_from w.source w.todo.tail _).source

/-! ## What is left at the end -/

/-- Where a walk has stopped under a policy. -/
structure Halted.Obeys (policy : FailurePolicy) (h : Halted) : Prop where
  /-- Events are left at the end only behind a rejection that was the end. -/
  left : h.halt = .done → h.walk.todo ≠ [] → policy = .abort ∧ h.rejections.length = 1
  /-- It does not go on behind such a rejection. -/
  offer : policy = .abort → ∀ event, h.halt = .offer event → h.rejections = []

/-- A rejection that is the end. -/
theorem Halted.Obeys.abort (w : Walk) (r : Rejection) : Halted.Obeys .abort ⟨w, [r], .done⟩ :=
  ⟨fun _ _ => ⟨rfl, rfl⟩, fun _ _ he => absurd he (by simp)⟩

/-- A rejection behind which the walk goes on. -/
theorem Halted.Obeys.proceed (ho : h.Obeys .proceed) (r : Rejection) :
    Halted.Obeys .proceed { h with rejections := r :: h.rejections } :=
  ⟨fun done some => absurd (ho.left done some).1 (by simp), fun e => absurd e (by simp)⟩

theorem advance_obeys (source : String) : ∀ (es : List Wire.Event) (t : Tally),
    (Walk.advance s source last? es t).Obeys s.failurePolicy
  | [], t => by
    unfold Walk.advance
    exact ⟨fun _ some => absurd rfl some, fun _ _ he => absurd he (by simp)⟩
  | e :: es, t => by
    unfold Walk.advance
    cases hx : examine source last? e with
    | ok event => exact ⟨fun done => absurd done (by simp), fun _ _ _ => rfl⟩
    | error cause =>
      simp only
      cases hp : s.failurePolicy with
      | abort => exact .abort _ _
      | proceed => exact .proceed (hp ▸ advance_obeys source es _) _

theorem settle_obeys (s : Settings) (last? : Option UInt64) (w : Walk) (event : Event)
    (verdict : Pipeline.Verdict) : (w.settle s last? event verdict).2.Obeys s.failurePolicy := by
  cases verdict with
  | taken => exact advance_obeys w.source w.todo.tail w.tally.accept
  | failed fault =>
    unfold Walk.settle
    simp only
    cases hp : s.failurePolicy with
    | abort => exact .abort _ _
    | proceed => exact .proceed (hp ▸ advance_obeys w.source w.todo.tail _) _

/-! ## Walks along the events of a call -/

theorem along_start (source : String) (events : List Wire.Event) :
    (Walk.start source events).Along events := by
  constructor <;> simp [Walk.start, Tally.start, Tally.decided]

variable {events : List Wire.Event}

theorem Walk.Along.getElem? (hw : w.Along events) {e : Wire.Event} {es : List Wire.Event}
    (h : w.todo = e :: es) : events[w.tally.decided]? = some e := by
  rw [hw.todo] at h
  rw [← List.head?_drop, h, List.head?_cons]

theorem Walk.Along.taken (hw : w.Along events) {e : Wire.Event} {es : List Wire.Event}
    (h : w.todo = e :: es) : w.taken.Along events := by
  have hd : w.taken.tally.decided = w.tally.decided + 1 := by
    simp only [Walk.taken, Tally.decided, Tally.accept]
    omega
  have hlt := (List.getElem?_eq_some_iff.mp (hw.getElem? h)).1
  refine ⟨?_, hw.total, by omega⟩
  rw [hd, ← List.tail_drop, ← hw.todo]
  rfl

theorem Halted.From.decided (hf : h.From w last?) :
    h.walk.tally.decided = w.tally.decided + h.rejections.length := by
  unfold Tally.decided
  rw [hf.processed, hf.rejected]
  omega

/-- A walk that goes on is a walk along the same events. -/
theorem Halted.From.along (hf : h.From w last?) (hw : w.Along events) : h.walk.Along events := by
  have hle := hf.length_le
  rw [hw.todo, List.length_drop] at hle
  have := hw.decided_le
  refine ⟨?_, hf.total.trans hw.total, by rw [hf.decided]; omega⟩
  rw [hf.todo, hw.todo, List.drop_drop, hf.decided]

/-- The rejections on the way are of events not decided before, and decided after. -/
theorem Halted.From.index_range (hf : h.From w last?) {r : Rejection} (hr : r ∈ h.rejections) :
    w.tally.decided ≤ r.index ∧ r.index < h.walk.tally.decided := by
  have := List.mem_map_of_mem (f := Rejection.index) hr
  rw [hf.indices, List.mem_range'_1] at this
  rw [hf.decided]
  exact this

end ChangeRelay.Dispatch
