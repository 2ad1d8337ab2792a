import ChangeRelay.Proofs.Reaction.Move
import ChangeRelay.Proofs.Reaction.Window

/-!
# Marks and their owners

`Orderly` ties the window of a reaction handler to its deliveries: an id is marked as in flight
under the one delivery that the pipeline has an invocation of this id from, a delivery only waits
for such a delivery, and the ids that count as applied are the remembered ones, each once.

* **`Orderly.step`**: every step keeps a handler orderly, and so does every run
  (`orderly_of_run`).
* `Move.marks`: what a step does to the marks.
* `Move.completes`: a step forgets no applied id, unless it is one that applies another.
-/

namespace ChangeRelay.Reaction

/-- The window and the deliveries agree. -/
structure Orderly (st : State) : Prop where
  /-- A mark is the mark of a delivery that is being applied. -/
  owner : ∀ {x c}, st.window.seen? x = some (.inFlight c) ↔
    ∃ a, st.deliveries.get? c = some ⟨x, .applying a⟩
  id_eq : ∀ {c x a}, st.deliveries.get? c = some ⟨x, .applying a⟩ → a.id = x
  /-- The remembered ids are the ones with a reply to be given again. -/
  remembered : ∀ {x}, x ∈ st.window.completed ↔ ∃ reply, st.window.seen? x = some (.done reply)
  nodup : st.window.completed.Nodup
  /-- A delivery waits for the one that has the mark of its id. -/
  awaits : ∀ {c x owner}, st.deliveries.get? c = some ⟨x, .awaiting owner⟩ →
    st.window.seen? x = some (.inFlight owner)

variable {s : Settings} {st st' : State} {l : Label} {left : Left} {es : List Effect}

/-! ## Deliveries that do not take a step -/

theorem Left.keep_applying (left : Left) (id : CallId) {d : Delivery} {x : String}
    {a : Invocation} : left.keep id d = ⟨x, .applying a⟩ ↔ d = ⟨x, .applying a⟩ := by
  unfold Left.keep
  cases left.release? with
  | none => rfl
  | some reply? =>
    simp only [Delivery.release]
    split
    · next h =>
      refine iff_of_false (by simp) fun e => ?_
      rw [e] at h
      exact absurd h (by simp)
    · rfl

/-- A delivery that still waits has not been released. -/
theorem Left.keep_awaiting (left : Left) (id : CallId) {d : Delivery} {x : String}
    {owner : CallId} (h : left.keep id d = ⟨x, .awaiting owner⟩) :
    d = ⟨x, .awaiting owner⟩ ∧ (left.release?.isSome = true → owner ≠ id) := by
  unfold Left.keep at h
  cases hr : left.release? with
  | none =>
    rw [hr] at h
    exact ⟨h, fun e => absurd e (by simp)⟩
  | some reply? =>
    simp only [hr, Delivery.release] at h
    split at h
    · exact absurd h (by simp)
    · next hw =>
      subst h
      exact ⟨rfl, fun _ e => hw (by rw [e])⟩

theorem After.applying (after : After st l.id left st') {c : CallId} (hc : c ≠ l.id) {x : String}
    {a : Invocation} : st'.deliveries.get? c = some ⟨x, .applying a⟩ ↔
      st.deliveries.get? c = some ⟨x, .applying a⟩ := by
  rw [after.deliveries, if_neg hc]
  simp only [Option.map_eq_some_iff, Left.keep_applying]
  refine ⟨?_, fun h => ⟨_, h, rfl⟩⟩
  rintro ⟨d, h, rfl⟩
  exact h

theorem After.awaiting (after : After st l.id left st') {c : CallId} (hc : c ≠ l.id) {x : String}
    {owner : CallId} (h : st'.deliveries.get? c = some ⟨x, .awaiting owner⟩) :
    st.deliveries.get? c = some ⟨x, .awaiting owner⟩ ∧
      (left.release?.isSome = true → owner ≠ l.id) := by
  rw [after.deliveries, if_neg hc] at h
  obtain ⟨d, hd, e⟩ := Option.map_eq_some_iff.mp h
  obtain ⟨rfl, ne⟩ := left.keep_awaiting l.id e
  exact ⟨hd, ne⟩

/-! ## Marks -/

theorem check_id {i : Wire.Invocation} {a : Invocation} (h : check s i = .ok a) : a.id = i.id := by
  unfold check at h
  split at h
  · exact absurd h (by simp)
  · next b hb =>
    have id_eq : b.id = i.id := by
      unfold Wire.Invocation.check at hb
      split at hb
      · exact absurd hb (by simp)
      · split at hb
        · exact absurd hb (by simp)
        · split at hb
          · exact absurd hb (by simp)
          · next p _ =>
            cases hp : p.check with
            | error _ => rw [hp] at hb; exact absurd hb (by simp [Except.map])
            | ok payload =>
              rw [hp] at hb
              obtain rfl := Except.ok.inj hb
              rfl
    split at h
    · exact absurd h (by simp)
    · split at h
      · exact absurd h (by simp)
      · obtain rfl := Except.ok.inj h
        exact id_eq

theorem seen?_begin_abandon {w : Window} {x : String} (new : w.seen? x = none) (owner : CallId)
    (y : String) : ((w.begin x owner).abandon x).seen? y = w.seen? y := by
  have begun : (w.begin x owner).seen? x = some (.inFlight owner) := by
    rw [Window.seen?_begin, if_pos rfl]
  rw [Window.seen?_abandon begun, Window.seen?_begin]
  by_cases hy : y = x
  · rw [if_pos hy, hy, new]
  · rw [if_neg hy, if_neg hy]

/-- A delivery that is not being applied has no mark. -/
theorem Orderly.no_mark (o : Orderly st) {c : CallId}
    (h : ∀ x a, st.deliveries.get? c ≠ some ⟨x, .applying a⟩) (x : String) :
    st.window.seen? x ≠ some (.inFlight c) := by
  intro hx
  obtain ⟨a, ha⟩ := o.owner.mp hx
  exact h x a ha

/-- What is in flight has not been applied lately. -/
theorem Orderly.not_completed (o : Orderly st) {x : String} {c : CallId}
    (mark : st.window.seen? x = some (.inFlight c)) : x ∉ st.window.completed := by
  intro hx
  obtain ⟨reply, h⟩ := o.remembered.mp hx
  exact absurd (mark.symm.trans h) (by simp)

theorem remembered_pos (s : Settings) : 0 < s.remembered := by
  unfold Settings.remembered
  omega

section Marks

variable {id c : CallId} {x y : String} {delivery? : Option Delivery} {w : Window}

/-- Where the same is known, of a delivery that is not being applied before or after. -/
theorem Orderly.marks_same (o : Orderly st) (same : w.seen? x = st.window.seen? x)
    (old : ∀ x a, st.deliveries.get? id ≠ some ⟨x, .applying a⟩)
    (new : ∀ x a, delivery? ≠ some ⟨x, .applying a⟩) :
    w.seen? x = some (.inFlight c) ↔
      if c = id then ∃ a, delivery? = some ⟨x, .applying a⟩
      else st.window.seen? x = some (.inFlight c) := by
  rw [same]
  by_cases hc : c = id
  · rw [if_pos hc, hc]
    refine iff_of_false (o.no_mark old x) ?_
    rintro ⟨a, ha⟩
    exact new x a ha
  · rw [if_neg hc]

/-- Where the mark of a delivery is taken away, which ends. -/
theorem Orderly.marks_gone (o : Orderly st) {a : Invocation}
    (at_ : st.deliveries.get? id = some ⟨y, .applying a⟩)
    (unmarked : ∀ c, w.seen? y ≠ some (.inFlight c))
    (others : x ≠ y → (w.seen? x = some (.inFlight c) ↔ st.window.seen? x = some (.inFlight c))) :
    w.seen? x = some (.inFlight c) ↔
      if c = id then ∃ a, (none : Option Delivery) = some ⟨x, .applying a⟩
      else st.window.seen? x = some (.inFlight c) := by
  have mark : st.window.seen? y = some (.inFlight id) := o.owner.mpr ⟨a, at_⟩
  by_cases hx : x = y
  · subst hx
    refine iff_of_false (unmarked c) fun h => ?_
    by_cases hc : c = id
    · rw [if_pos hc] at h
      obtain ⟨a, ha⟩ := h
      exact absurd ha (by simp)
    · rw [if_neg hc, mark] at h
      exact hc (Seen.inFlight.inj (Option.some.inj h)).symm
  · rw [others hx]
    by_cases hc : c = id
    · rw [if_pos hc, hc]
      refine iff_of_false (fun h => hx ?_) (by simp)
      obtain ⟨b, hb⟩ := o.owner.mp h
      exact (Delivery.mk.inj (Option.some.inj (hb.symm.trans at_))).1
    · rw [if_neg hc]

/-- Where the mark of a delivery that ends is taken back. -/
theorem Orderly.marks_abandon (o : Orderly st) {a : Invocation}
    (at_ : st.deliveries.get? id = some ⟨y, .applying a⟩) :
    (st.window.abandon y).seen? x = some (.inFlight c) ↔
      if c = id then ∃ a, (none : Option Delivery) = some ⟨x, .applying a⟩
      else st.window.seen? x = some (.inFlight c) := by
  have mark := o.owner.mpr ⟨a, at_⟩
  refine o.marks_gone at_ (fun c => ?_) fun hx => ?_
  · rw [Window.seen?_abandon mark, if_pos rfl]
    simp
  · rw [Window.seen?_abandon mark, if_neg hx]

/-- Where a delivery has been applied. -/
theorem Orderly.marks_complete (o : Orderly st) {a : Invocation}
    (at_ : st.deliveries.get? id = some ⟨y, .applying a⟩) (reply : InvocationReply) :
    (st.window.complete s.remembered y reply).seen? x = some (.inFlight c) ↔
      if c = id then ∃ a, (none : Option Delivery) = some ⟨x, .applying a⟩
      else st.window.seen? x = some (.inFlight c) := by
  have new := o.not_completed (o.owner.mpr ⟨a, at_⟩)
  have seen := Window.seen?_complete (remembered_pos s) o.nodup new reply
  refine o.marks_gone at_ (fun c => ?_) fun hx => ?_
  · rw [seen, if_pos rfl]
    simp
  · rw [seen, if_neg hx]
    split
    · next h => exact iff_of_false (by simp) fun mark => o.not_completed mark h.1
    · rfl

end Marks

/-- **What a step does to the marks**: its delivery has one afterwards if it is being applied then,
and the marks of others stay. -/
theorem Move.marks (o : Orderly st) (m : Move s st l left es) (x : String) (c : CallId) :
    left.window.seen? x = some (.inFlight c) ↔
      if c = l.id then ∃ a, left.delivery? = some ⟨x, .applying a⟩
      else st.window.seen? x = some (.inFlight c) := by
  cases m with
  | unnamed free _ => exact o.marks_same rfl (by simp [Label.id, free]) (by simp)
  | again free _ _ => exact o.marks_same rfl (by simp [Label.id, free]) (by simp)
  | await free _ _ => exact o.marks_same rfl (by simp [Label.id, free]) (by simp)
  | refuse free _ new _ =>
    exact o.marks_same (seen?_begin_abandon new _ x) (by simp [Label.id, free]) (by simp)
  | @apply id i a free _ new _ =>
    have old := o.no_mark (c := id) (by simp [free])
    rw [Window.seen?_begin, show (Label.arrive id i).id = id from rfl]
    by_cases hx : x = i.id
    · subst hx
      by_cases hc : c = id
      · simp [hc]
      · rw [if_pos rfl, if_neg hc, new]
        simp [Ne.symm hc]
    · rw [if_neg hx]
      by_cases hc : c = id
      · rw [if_pos hc, hc]
        refine iff_of_false (old x) ?_
        rintro ⟨b, hb⟩
        exact hx (Delivery.mk.inj (Option.some.inj hb)).1.symm
      · rw [if_neg hc]
  | fail fault at_ =>
    rw [o.id_eq at_]
    exact o.marks_abandon at_
  | complete at_ =>
    rw [o.id_eq at_]
    exact o.marks_complete at_ _
  | resume at_ => exact o.marks_same rfl (by simp [Label.id, at_]) (by simp)
  | expire at_ => exact o.marks_same rfl (by simp [Label.id, at_]) (by simp)
  | interrupt at_ => exact o.marks_abandon at_
  | leave at_ idle =>
    refine o.marks_same rfl (fun x a h => ?_) (by simp)
    exact idle a (by rw [Option.some.inj (at_.symm.trans h)])

/-- **What a step does to what is remembered**: nothing, or it applies one more invocation. -/
theorem Move.completes (o : Orderly st) (m : Move s st l left es) :
    (left.window.completed = st.window.completed ∧
      (∀ x reply, left.window.seen? x = some (.done reply) ↔
        st.window.seen? x = some (.done reply)) ∧ ∀ id, l ≠ .answer id .taken) ∨
    ∃ x a, l = .answer l.id .taken ∧ st.deliveries.get? l.id = some ⟨x, .applying a⟩ ∧
      left.window = st.window.complete s.remembered x (appliedReply a) := by
  -- Taking a mark back leaves what is remembered.
  have abandoned : ∀ {x c a}, st.deliveries.get? c = some ⟨x, .applying a⟩ → ∀ y reply,
      (st.window.abandon x).seen? y = some (.done reply) ↔
        st.window.seen? y = some (.done reply) := by
    intro x c a at_ y reply
    have mark := o.owner.mpr ⟨a, at_⟩
    rw [Window.seen?_abandon mark]
    by_cases hy : y = x
    · rw [if_pos hy, hy, mark]
      simp
    · rw [if_neg hy]
  cases m with
  | unnamed _ _ => exact .inl ⟨rfl, fun _ _ => Iff.rfl, fun _ => by simp⟩
  | again _ _ _ => exact .inl ⟨rfl, fun _ _ => Iff.rfl, fun _ => by simp⟩
  | await _ _ _ => exact .inl ⟨rfl, fun _ _ => Iff.rfl, fun _ => by simp⟩
  | refuse _ _ new _ =>
    refine .inl ⟨Window.completed_abandon _ _, fun y reply => ?_, fun _ => by simp⟩
    rw [seen?_begin_abandon new]
  | @apply id i _ _ _ new _ =>
    refine .inl ⟨rfl, fun y reply => ?_, fun _ => by simp⟩
    rw [Window.seen?_begin]
    by_cases hy : y = i.id
    · rw [if_pos hy, hy, new]
      simp
    · rw [if_neg hy]
  | fail fault at_ =>
    rw [o.id_eq at_]
    exact .inl ⟨Window.completed_abandon _ _, abandoned at_, fun _ => by simp⟩
  | complete at_ => exact .inr ⟨_, _, rfl, at_, by rw [o.id_eq at_]⟩
  | resume _ => exact .inl ⟨rfl, fun _ _ => Iff.rfl, fun _ => by simp⟩
  | expire _ => exact .inl ⟨rfl, fun _ _ => Iff.rfl, fun _ => by simp⟩
  | interrupt at_ => exact .inl ⟨Window.completed_abandon _ _, abandoned at_, fun _ => by simp⟩
  | leave _ _ => exact .inl ⟨rfl, fun _ _ => Iff.rfl, fun _ => by simp⟩

/-! ## Every step keeps a handler orderly -/

/-- A delivery that the pipeline has an invocation of releases others when it ends, and each of its
steps is its end. -/
theorem Move.releases (m : Move s st l left es) {x : String} {a : Invocation}
    (at_ : st.deliveries.get? l.id = some ⟨x, .applying a⟩) :
    left.release?.isSome = true ∧ left.delivery? = none := by
  cases m with
  | unnamed free _ => exact absurd (free.symm.trans at_) (by simp)
  | again free _ _ => exact absurd (free.symm.trans at_) (by simp)
  | await free _ _ => exact absurd (free.symm.trans at_) (by simp)
  | refuse free _ _ _ => exact absurd (free.symm.trans at_) (by simp)
  | apply free _ _ _ => exact absurd (free.symm.trans at_) (by simp)
  | fail _ _ => exact ⟨rfl, rfl⟩
  | complete _ => exact ⟨rfl, rfl⟩
  | resume old => exact absurd (old.symm.trans at_) (by simp)
  | expire old => exact absurd (old.symm.trans at_) (by simp)
  | interrupt _ => exact ⟨rfl, rfl⟩
  | leave old idle =>
    have e := Option.some.inj (old.symm.trans at_)
    exact absurd (congrArg Delivery.phase e) (idle a)

/-- A delivery that comes to be applied has the id of its invocation. -/
theorem Move.id_eq (m : Move s st l left es) {x : String} {a : Invocation}
    (new : left.delivery? = some ⟨x, .applying a⟩) : a.id = x := by
  cases m with
  | apply _ _ _ good =>
    obtain ⟨rfl, h⟩ := Delivery.mk.inj (Option.some.inj new)
    rw [← Phase.applying.inj h]
    exact check_id good
  | await _ _ _ => exact absurd (congrArg Delivery.phase (Option.some.inj new)) (by simp)
  | _ => exact absurd new (by simp)

/-- A delivery that comes to wait finds its id marked. -/
theorem Move.awaits (m : Move s st l left es) {x : String} {owner : CallId}
    (new : left.delivery? = some ⟨x, .awaiting owner⟩) :
    left.window.seen? x = some (.inFlight owner) := by
  cases m with
  | apply _ _ _ _ => exact absurd (congrArg Delivery.phase (Option.some.inj new)) (by simp)
  | await _ _ seen =>
    obtain ⟨rfl, h⟩ := Delivery.mk.inj (Option.some.inj new)
    rw [← Phase.awaiting.inj h]
    exact seen
  | _ => exact absurd new (by simp)

/-- The remembered ids after one more was applied. -/
theorem Orderly.remembered_complete (o : Orderly st) {y : String} (new : y ∉ st.window.completed)
    (reply : InvocationReply) {x : String} :
    x ∈ (st.window.complete s.remembered y reply).completed ↔
      ∃ reply', (st.window.complete s.remembered y reply).seen? x = some (.done reply') := by
  rw [Window.completed_complete, Window.seen?_complete (remembered_pos s) o.nodup new]
  by_cases hx : x = y
  · subst hx
    rw [if_pos rfl]
    exact iff_of_true (mem_latest_append_cons (remembered_pos s)) ⟨reply, rfl⟩
  · rw [if_neg hx]
    by_cases hl : x ∈ latest s.remembered (st.window.completed ++ [y])
    · have hc : x ∈ st.window.completed := by
        have := (latest_sublist _ _).subset hl
        rw [List.mem_append, List.mem_singleton] at this
        exact this.resolve_right hx
      rw [if_neg fun h => h.2 hl]
      exact iff_of_true hl (o.remembered.mp hc)
    · refine iff_of_false hl ?_
      rintro ⟨reply', h⟩
      split at h
      · exact absurd h (by simp)
      · next hn => exact hn ⟨o.remembered.mpr ⟨reply', h⟩, hl⟩

/-- **Every step keeps a handler orderly.** -/
theorem Orderly.step (o : Orderly st) (h : step s st l = some (st', es)) : Orderly st' := by
  obtain ⟨left, m, after⟩ := step_move h
  constructor
  case owner =>
    intro x c
    rw [after.window, m.marks o]
    by_cases hc : c = l.id
    · rw [if_pos hc, after.deliveries, if_pos hc]
    · rw [if_neg hc, o.owner]
      exact exists_congr fun a => (after.applying hc).symm
  case id_eq =>
    intro c x a hd
    by_cases hc : c = l.id
    · rw [after.deliveries, if_pos hc] at hd
      exact m.id_eq hd
    · exact o.id_eq ((after.applying hc).mp hd)
  case remembered =>
    intro x
    rw [after.window]
    rcases m.completes o with ⟨completed, done, -⟩ | ⟨y, a, -, at_, window⟩
    · rw [completed, o.remembered]
      exact exists_congr fun reply => (done x reply).symm
    · rw [window]
      exact o.remembered_complete (o.not_completed (o.owner.mpr ⟨a, at_⟩)) _
  case nodup =>
    rw [after.window]
    rcases m.completes o with ⟨completed, -, -⟩ | ⟨y, a, -, at_, window⟩
    · rw [completed]
      exact o.nodup
    · rw [window, Window.completed_complete]
      refine List.Nodup.sublist (latest_sublist _ _) ?_
      rw [List.nodup_append]
      refine ⟨o.nodup, by simp, fun a' ha b hb => ?_⟩
      rintro rfl
      exact o.not_completed (o.owner.mpr ⟨a, at_⟩) (List.mem_singleton.mp hb ▸ ha)
  case awaits =>
    intro c x owner hd
    by_cases hc : c = l.id
    · rw [after.deliveries, if_pos hc] at hd
      rw [after.window]
      exact m.awaits hd
    · obtain ⟨hd, ne⟩ := after.awaiting hc hd
      have mark := o.awaits hd
      have other : owner ≠ l.id := by
        rintro rfl
        obtain ⟨a, at_⟩ := o.owner.mp mark
        exact ne (m.releases at_).1 rfl
      rw [after.window, m.marks o, if_neg other]
      exact mark

theorem orderly_start : Orderly .start := by
  constructor
  case owner => simp [State.start]
  case id_eq => simp [State.start]
  case remembered => simp [State.start, Window.seen?, Window.empty]
  case nodup => exact .nil
  case awaits => simp [State.start]

/-- **Every run leads to an orderly handler.** -/
theorem orderly_of_run {ms : List (Moment State Label Effect)} (run : (machine s).Run ms st) :
    Orderly st := by
  induction run with
  | start => exact orderly_start
  | next run h ih => exact ih.step h

end ChangeRelay.Reaction
