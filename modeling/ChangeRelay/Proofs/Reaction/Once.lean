import ChangeRelay.Proofs.Reaction.Marks

/-!
# An invocation is applied once

An invocation may be delivered any number of times, also while an earlier delivery of it is under
way. The window keeps it from being applied again: an id that is in flight has a mark, and of those
that were applied the latest are remembered. `begin` and `complete` of `DedupWindow` do this, on
either side of the sink's `apply`.

* **`completed_of_run`**: what is remembered is the latest of what was applied.
* **`atMostOnce_of_run`**: no two deliveries of an id are applied at the same time, and between two
  applications of an id so many others are applied that it was forgotten.
-/

namespace ChangeRelay.Reaction

abbrev History := List (Moment State Label Effect)

/-- What the pipeline takes at a moment. -/
def applied? (m : Moment State Label Effect) : Option Invocation :=
  match m.label with
  | .answer id .taken => match m.before.deliveries.get? id with
    | some ⟨_, .applying a⟩ => some a
    | _ => none
  | _ => none

/-- The applied invocations, in order. -/
def applied (h : History) : List Invocation := h.filterMap applied?

def appliedIds (h : History) : List String := (applied h).map Invocation.id

/-- The pipeline was handed an invocation by the call numbered `n`, which has taken no step
since. -/
def InHand (h : History) (n : Nat) (c : CallId) (a : Invocation) : Prop :=
  .apply c a ∈ Moment.effectsOf h n ∧ (Moment.labelsOf h n).length = 1

/-- After `h` an id is in flight, or it is among those applied last. -/
def Known (s : Settings) (h : History) (st : State) (x : String) : Prop :=
  (∃ c a, st.deliveries.get? c = some ⟨x, .applying a⟩) ∨
    x ∈ latest (max s.capacity 1) (appliedIds h)

/-- An id is applied at most once, as far as the window reaches. -/
structure AtMostOnce (s : Settings) (h : History) (st : State) : Prop where
  /-- An invocation that the pipeline has is that of a delivery which is being applied. -/
  inHand : ∀ {n c a}, InHand h n c a → st.deliveries.get? c = some ⟨a.id, .applying a⟩
  /-- The pipeline never has two invocations of an id. -/
  alone : ∀ {n n' c c' a a'}, InHand h n c a → InHand h n' c' a' → a.id = a'.id → n = n'
  /-- Between two applications of an id lie those of enough others. -/
  apart : ∀ {pre mid post a b}, applied h = pre ++ a :: mid ++ b :: post → a.id = b.id →
    ∃ ids : List String, ids.Nodup ∧ ids.Sublist (mid.map Invocation.id) ∧ a.id ∉ ids ∧
      max s.capacity 1 ≤ ids.length
  /-- A known id that is delivered again never comes to the pipeline. -/
  redelivered : ∀ {pre m post c i}, h = pre ++ m :: post → m.label = .arrive c i →
    Known s pre m.before i.id → ∀ c' a, Effect.apply c' a ∉ Moment.effectsOf h m.call

variable {s : Settings} {st st' : State} {l : Label} {left : Left} {es : List Effect}
variable {h : History}

/-- The next moment of a history. -/
abbrev next (s : Settings) (h : History) (st : State) (l : Label) (es : List Effect) :
    Moment State Label Effect := (machine s).moment h st l es

/-! ## What is remembered -/

theorem applied?_spec {m : Moment State Label Effect} {a : Invocation}
    (ha : applied? m = some a) : ∃ c x, m.label = .answer c .taken ∧
      m.before.deliveries.get? c = some ⟨x, .applying a⟩ := by
  unfold applied? at ha
  split at ha
  · next c hl =>
    split at ha
    · next x b hd =>
      obtain rfl := Option.some.inj ha
      exact ⟨c, x, hl, hd⟩
    · exact absurd ha (by simp)
  · exact absurd ha (by simp)

theorem applied?_eq_some {m : Moment State Label Effect} {c : CallId} {x : String} {a : Invocation}
    (hl : m.label = .answer c .taken) (at_ : m.before.deliveries.get? c = some ⟨x, .applying a⟩) :
    applied? m = some a := by
  unfold applied?
  rw [hl]
  simp only [at_]

theorem applied_concat (h : History) (m : Moment State Label Effect) :
    applied (h ++ [m]) = applied h ++ (applied? m).toList := by
  unfold applied
  rw [List.filterMap_append]
  cases hm : applied? m <;> simp [hm]

theorem applied?_none {m : Moment State Label Effect} (hl : ∀ c, m.label ≠ .answer c .taken) :
    applied? m = none := by
  cases ha : applied? m with
  | none => rfl
  | some a =>
    obtain ⟨c, x, h, -⟩ := applied?_spec ha
    exact absurd h (hl c)

/-- **What is remembered is the latest of what was applied.** -/
theorem completed_of_run (run : (machine s).Run h st) :
    st.window.completed = latest s.remembered (appliedIds h) := by
  induction run with
  | start => exact List.drop_nil.symm
  | @next h st st' l es run hs ih =>
    obtain ⟨left, m, after⟩ := step_move hs
    have o := orderly_of_run run
    rw [after.window, appliedIds, applied_concat]
    rcases m.completes o with ⟨completed, -, other⟩ | ⟨x, a, hl, at_, window⟩
    · have none : applied? (next s h st l es) = none := applied?_none other
      rw [completed, ih, none, Option.toList_none, List.append_nil]
      rfl
    · have some : applied? (next s h st l es) = some a := applied?_eq_some hl at_
      rw [window, Window.completed_complete, ih, latest_concat, some, Option.toList_some,
        List.map_append, List.map_singleton, o.id_eq at_]
      rfl

/-! ## Applications of an id -/

/-- The moment at which one of the applied invocations was applied. -/
theorem moment_of_applied {pre post : List Invocation} {a : Invocation}
    (ha : applied h = pre ++ a :: post) :
    ∃ h₁ m h₂, h = h₁ ++ m :: h₂ ∧ applied h₁ = pre ∧ applied? m = some a := by
  obtain ⟨h₁, h₂, rfl, hpre, h₂_eq⟩ := List.filterMap_eq_append_iff.mp ha
  obtain ⟨skip, m, rest, rfl, none, some, -⟩ := List.filterMap_eq_cons_iff.mp h₂_eq
  refine ⟨h₁ ++ skip, m, rest, by rw [List.append_assoc], ?_, some⟩
  unfold applied
  rw [List.filterMap_append, hpre, List.filterMap_eq_nil_iff.mpr none, List.append_nil]

theorem apart_of_run (run : (machine s).Run h st) {pre mid post : List Invocation}
    {a b : Invocation} (happlied : applied h = pre ++ a :: mid ++ b :: post) (same : a.id = b.id) :
    ∃ ids : List String, ids.Nodup ∧ ids.Sublist (mid.map Invocation.id) ∧ a.id ∉ ids ∧
      max s.capacity 1 ≤ ids.length := by
  obtain ⟨h₁, m, h₂, rfl, before, ha⟩ := moment_of_applied happlied
  obtain ⟨run, -, -⟩ := run.before
  obtain ⟨c, x, -, at_⟩ := applied?_spec ha
  have o := orderly_of_run run
  -- The id is in flight at its second application, so it is not remembered there.
  have forgotten : a.id ∉ m.before.window.completed := by
    rw [same, o.id_eq at_]
    exact o.not_completed (o.owner.mpr ⟨b, at_⟩)
  have completed := completed_of_run run
  rw [appliedIds, before, List.map_append, List.map_cons] at completed
  have enough : s.remembered ≤ (mid.map Invocation.id).length := by
    by_contra few
    refine forgotten ?_
    rw [completed]
    exact mem_latest_append_cons (Nat.lt_of_not_le few)
  rw [← List.singleton_append, ← List.append_assoc, latest_append _ _ enough] at completed
  refine ⟨latest s.remembered (mid.map Invocation.id), ?_, latest_sublist _ _, ?_, ?_⟩
  · rw [← completed]
    exact o.nodup
  · rw [← completed]
    exact forgotten
  · rw [length_latest, Nat.min_eq_left enough]
    exact Nat.le_refl _

/-! ## Deliveries of a known id -/

/-- Only an id of which nothing is known comes to the pipeline, when it is delivered. -/
theorem Move.applies (m : Move s st l left es) {c : CallId} {a : Invocation}
    (ha : .apply c a ∈ es) :
    ∃ i, l = .arrive c i ∧ check s i = .ok a ∧ st.window.seen? i.id = none := by
  cases m with
  | unnamed _ _ => exact absurd ha (by simp)
  | again _ _ _ => exact absurd ha (by simp)
  | await _ _ _ => exact absurd ha (by simp)
  | refuse _ _ _ _ => simp [not_mem_wakes] at ha
  | @apply id i b free named new good =>
    rw [List.mem_append, List.mem_singleton] at ha
    rcases ha with ha | ha
    · exact absurd ha (not_mem_correlationLines (by simp) s b)
    · obtain ⟨rfl, rfl⟩ := Effect.apply.inj ha
      exact ⟨i, rfl, good, new⟩
  | fail _ _ => simp [not_mem_wakes] at ha
  | complete _ => simp [not_mem_wakes, not_mem_stops] at ha
  | resume _ => exact absurd ha (by simp)
  | expire _ => exact absurd ha (by simp)
  | interrupt _ => simp [not_mem_wakes] at ha
  | leave _ _ => exact absurd ha (by simp)

theorem Move.applies_delivery (m : Move s st l left es) {c : CallId} {a : Invocation}
    (ha : .apply c a ∈ es) : left.delivery? = some ⟨a.id, .applying a⟩ := by
  obtain ⟨i, rfl, good, new⟩ := m.applies ha
  cases m with
  | unnamed _ _ => exact absurd ha (by simp)
  | again _ _ _ => exact absurd ha (by simp)
  | await _ _ _ => exact absurd ha (by simp)
  | refuse _ _ _ bad => exact absurd (bad.symm.trans good) (by simp)
  | apply _ _ _ good' =>
    obtain rfl := Except.ok.inj (good.symm.trans good')
    rw [check_id good]

/-- What the pipeline has it has from a delivery that is being applied. -/
theorem applying_of_inHand (run : (machine s).Run h st) {n : Nat} {c : CallId} {a : Invocation}
    (hand : InHand h n c a) : st.deliveries.get? c = some ⟨a.id, .applying a⟩ ∧
      (machine s).numberOf h c = n := by
  obtain ⟨ha, one⟩ := hand
  induction run with
  | start => exact absurd ha (by simp [Moment.effectsOf])
  | @next h st st' l es run hs ih =>
    obtain ⟨left, m, after⟩ := step_move hs
    rw [Moment.effectsOf_concat, List.mem_append] at ha
    rw [Moment.labelsOf_concat, List.length_append] at one
    by_cases hn : (next s h st l es).call = n
    · rw [if_pos hn] at ha one
      have first : Moment.labelsOf h n = [] := by
        rw [← List.length_eq_zero_iff]
        simp only [List.length_singleton] at one
        omega
      have before : Effect.apply c a ∉ Moment.effectsOf h n := by
        intro hm
        obtain ⟨m, hm, hc, -⟩ := Moment.mem_effectsOf.mp hm
        have : m.label ∈ Moment.labelsOf h n := Moment.mem_labelsOf.mpr ⟨m, hm, hc, rfl⟩
        rw [first] at this
        exact absurd this (by simp)
      have handed : .apply c a ∈ es := ha.resolve_left before
      obtain ⟨i, rfl, -, -⟩ := m.applies handed
      refine ⟨?_, ?_⟩
      · rw [after.deliveries, show (Label.arrive c i).id = c from rfl, if_pos rfl]
        exact m.applies_delivery handed
      · exact (Machine.numberOf_next_name (M := machine s)).trans hn
    · rw [if_neg hn, List.length_nil, Nat.add_zero] at one
      rw [if_neg hn] at ha
      obtain ⟨at_, number⟩ := ih (ha.resolve_right (by simp)) one
      have hc : c ≠ l.id := by
        rintro rfl
        refine hn (Eq.trans ?_ number)
        exact Machine.callOf_none (request?_eq_none hs at_)
      exact ⟨(after.applying hc).mpr at_, (Machine.numberOf_next c (.inr hc)).trans number⟩

theorem alone_of_run (run : (machine s).Run h st) {n n' : Nat} {c c' : CallId}
    {a a' : Invocation} (hand : InHand h n c a) (hand' : InHand h n' c' a') (same : a.id = a'.id) :
    n = n' := by
  have o := orderly_of_run run
  obtain ⟨at_, rfl⟩ := applying_of_inHand run hand
  obtain ⟨at', rfl⟩ := applying_of_inHand run hand'
  -- An id has one mark, and each of the two deliveries is its owner.
  have mark := o.owner.mpr ⟨a, at_⟩
  rw [same, o.owner.mpr ⟨a', at'⟩] at mark
  rw [Seen.inFlight.inj (Option.some.inj mark)]

/-- Of a known id something is known. -/
theorem Known.seen (run : (machine s).Run h st) {x : String} (known : Known s h st x) :
    st.window.seen? x ≠ none := by
  have o := orderly_of_run run
  rcases known with ⟨c, a, at_⟩ | remembered
  · rw [o.owner.mpr ⟨a, at_⟩]
    simp
  · have : x ∈ st.window.completed := by
      rw [completed_of_run run]
      exact remembered
    obtain ⟨reply, hs⟩ := o.remembered.mp this
    rw [hs]
    simp

theorem redelivered_of_run (run : (machine s).Run h st) {pre post : History}
    {m : Moment State Label Effect} {c : CallId} {i : Wire.Invocation}
    (split : h = pre ++ m :: post) (hl : m.label = .arrive c i)
    (known : Known s pre m.before i.id) (c' : CallId) (a : Invocation) :
    Effect.apply c' a ∉ Moment.effectsOf h m.call := by
  intro ha
  obtain ⟨m', hm', same, ha⟩ := Moment.mem_effectsOf.mp ha
  obtain ⟨pre', post', split'⟩ := List.append_of_mem hm'
  obtain ⟨-, -, st₁, hs⟩ := Machine.Run.before (split' ▸ run)
  obtain ⟨left, move, -⟩ := step_move hs
  obtain ⟨i', hl', -, new⟩ := move.applies ha
  have arrives : ((machine s).request? m.label).isSome = true := by rw [hl]; rfl
  have arrives' : ((machine s).request? m'.label).isSome = true := by rw [hl']; rfl
  obtain ⟨rfl, rfl⟩ := run.arrival_unique split split' arrives arrives' same.symm
  obtain ⟨run, -, -⟩ := Machine.Run.before (split ▸ run)
  obtain ⟨-, rfl⟩ := Label.arrive.inj (hl.symm.trans hl')
  exact known.seen run new

/-- **An invocation is applied at most once**, as far as the window reaches, in every run. -/
theorem atMostOnce_of_run (run : (machine s).Run h st) : AtMostOnce s h st where
  inHand := fun hand => (applying_of_inHand run hand).1
  alone := fun hand hand' same => alone_of_run run hand hand' same
  apart := fun happlied same => apart_of_run run happlied same
  redelivered := fun split hl known => redelivered_of_run run split hl known

/-! ## A sample -/

namespace Sample

/-- One applied invocation is remembered. -/
def settings : Settings := ⟨.empty, "id", 1, none, none, Duration.ofSeconds 1⟩

def invocation (id : String) : Wire.Invocation :=
  { id, timestamp := 0, query := "q", metadata := .empty, payload := some ⟨0, [], [], []⟩ }

/-- The first delivery of "x" fails and the next one is applied, and each has another one wait for
it; one more gives up waiting, and one comes when all is over. A delivery of "y" is dropped with
another one waiting, "y" is applied, and "x" with it forgotten. -/
def labels : List Label :=
  [.arrive 0 (invocation "x"), .arrive 1 (invocation "x"), .answer 0 (.failed .closed), .resume 1,
    .arrive 0 (invocation "x"), .arrive 2 (invocation "x"), .arrive 3 (invocation "x"), .expire 3,
    .answer 0 .taken, .resume 2, .arrive 3 (invocation "x"), .arrive 4 (invocation "y"),
    .arrive 5 (invocation "y"), .drop 4, .resume 5, .arrive 4 (invocation "y"), .answer 4 .taken,
    .arrive 6 (invocation "x"), .answer 6 .taken]

end Sample

theorem atMostOnce_sample : ∃ h st, (machine Sample.settings).play Sample.labels = some (h, st) ∧
    appliedIds h = ["x", "y", "x"] ∧ AtMostOnce Sample.settings h st := by
  have played : ((machine Sample.settings).play Sample.labels).map (fun r => appliedIds r.1) =
      some ["x", "y", "x"] := by
    decide +kernel
  obtain ⟨⟨h, st⟩, hr, ids⟩ := Option.map_eq_some_iff.mp played
  exact ⟨h, st, hr, ids, atMostOnce_of_run (Machine.run_of_play hr)⟩

end ChangeRelay.Reaction
