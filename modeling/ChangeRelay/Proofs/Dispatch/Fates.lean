import ChangeRelay.Proofs.Dispatch.Walk

/-!
# What becomes of events

The reference for a call: its events are gone through in order, with the last accepted number of
the source and the pipeline's verdicts, one for each event that is offered. Every event that is
attempted has a `Fate`. A walk of the dispatcher stops at each offer and goes on with the verdict;
`Halted.Fares` says that what it passes on the way is what the reference says.

* **`fates`**: the reference.
* **`resume_fares`**, **`settle_fares`**: a walk that goes on keeps to it.
* `Tells`: what a caller has to be told of these fates; **`tells_reply`**: a tally tells it.
-/

namespace ChangeRelay

/-- What is attempted behind a rejected event. -/
def FailurePolicy.rest {α : Type} (policy : FailurePolicy) (behind : List α) : List α :=
  match policy with
  | .proceed => behind
  | .abort => []

namespace Dispatch

/-- What becomes of an event that is attempted. -/
inductive Fate
  /-- It is not offered: it is not well formed, or its number is below the last accepted one. -/
  | refused (cause : Invalid)
  /-- It is offered, and not taken in time or at all. -/
  | failed (event : Event) (fault : Pipeline.Fault)
  | accepted (event : Event)
deriving DecidableEq, Repr

namespace Fate

/-- The event that is handed to the pipeline. -/
def offered? : Fate → Option Event
  | .refused _ => none
  | .failed event _ => some event
  | .accepted event => some event

def accepted? : Fate → Option Event
  | .accepted event => some event
  | _ => none

/-- Why it is rejected. -/
def reason? : Fate → Option String
  | .refused cause => some cause.message
  | .failed _ fault => some fault.message
  | .accepted _ => none

/-- The last accepted number behind an event; only an accepted one changes it. -/
def number (last? : Option UInt64) : Fate → Option UInt64
  | .accepted event => some event.sequence
  | _ => last?

/-- The fate of an event with a verdict. -/
def ofVerdict (event : Event) : Pipeline.Verdict → Fate
  | .taken => .accepted event
  | .failed fault => .failed event fault

end Fate

/-- The last accepted number, if that of an event lies below it. -/
def above? (last? : Option UInt64) (event : Event) : Option UInt64 :=
  last?.filter fun last => event.sequence < last

/-- **The reference**: what becomes of events on a source, where `last?` is the last accepted number
and the verdicts are given for the offers, one after the other. The row ends at an offer without
a verdict. -/
def fates (policy : FailurePolicy) (source : String) :
    Option UInt64 → List Pipeline.Verdict → List Wire.Event → List Fate
  | _, _, [] => []
  | last?, vs, e :: es =>
    match e.check with
    | .error cause => .refused cause :: policy.rest (fates policy source last? vs es)
    | .ok event =>
      match above? last? event with
      | some last =>
        .refused (.sequenceRegression source last event.sequence) ::
          policy.rest (fates policy source last? vs es)
      | none =>
        match vs with
        | [] => []
        | .taken :: vs => .accepted event :: fates policy source (some event.sequence) vs es
        | .failed fault :: vs =>
          .failed event fault :: policy.rest (fates policy source last? vs es)

/-- The events of a row that were handed to the pipeline. -/
def offered (row : List Fate) : List Event := row.filterMap Fate.offered?

def accepted (row : List Fate) : List Event := row.filterMap Fate.accepted?

/-- The reasons for the rejections of a row. -/
def reasons (row : List Fate) : List String := row.filterMap Fate.reason?

/-- What a caller with `total` events is told of their fates. -/
structure Tells (total : Nat) (row : List Fate) (reply : DispatchReply) : Prop where
  processed : reply.processed = UInt64.ofNat (accepted row).length
  success : reply.success = true ↔ (accepted row).length = total
  /-- Every event is accepted, rejected or not attempted; these last are only mentioned if there
  are any. -/
  message : ∃ left, (accepted row).length + (reasons row).length + left = total ∧
    reply.message = "processed " ++ decimal (accepted row).length ++ " of " ++ decimal total ++
      " events" ++ match (reasons row).head? with
        | none => ""
        | some first => "; " ++ decimal (reasons row).length ++ " rejected" ++
          (if 0 < left then ", " ++ decimal left ++ " not attempted" else "") ++
          " (first: " ++ first ++ ")"

variable {s : Settings} {policy : FailurePolicy} {source : String} {last? : Option UInt64}
variable {vs us : List Pipeline.Verdict} {e : Wire.Event} {es : List Wire.Event} {event : Event}

@[simp] theorem offered_cons (f : Fate) (row : List Fate) :
    offered (f :: row) = f.offered?.toList ++ offered row := by
  unfold offered
  cases h : f.offered? <;> simp [h]

@[simp] theorem accepted_cons (f : Fate) (row : List Fate) :
    accepted (f :: row) = f.accepted?.toList ++ accepted row := by
  unfold accepted
  cases h : f.accepted? <;> simp [h]

@[simp] theorem reasons_cons (f : Fate) (row : List Fate) :
    reasons (f :: row) = f.reason?.toList ++ reasons row := by
  unfold reasons
  cases h : f.reason? <;> simp [h]

@[simp] theorem offered_append (row row' : List Fate) :
    offered (row ++ row') = offered row ++ offered row' := List.filterMap_append

@[simp] theorem accepted_append (row row' : List Fate) :
    accepted (row ++ row') = accepted row ++ accepted row' := List.filterMap_append

/-! ## One event -/

theorem examine_eq (source : String) (last? : Option UInt64) (e : Wire.Event) :
    examine source last? e = match e.check with
      | .error cause => .error cause
      | .ok event => match above? last? event with
        | some last => .error (.sequenceRegression source last event.sequence)
        | none => .ok event := by
  unfold examine above?
  cases e.check with
  | error cause => rfl
  | ok event =>
    cases last? with
    | none => rfl
    | some last =>
      by_cases below : event.sequence < last
      · simp [Option.filter, below]
      · simp [Option.filter, below]

/-- An event that cannot be offered. -/
theorem fates_error {cause : Invalid} (h : examine source last? e = .error cause) :
    fates policy source last? vs (e :: es) =
      .refused cause :: policy.rest (fates policy source last? vs es) := by
  rw [examine_eq] at h
  rw [fates]
  cases hc : e.check with
  | error cause' =>
    rw [hc] at h
    obtain rfl := Except.error.inj h
    rfl
  | ok event =>
    rw [hc] at h
    cases hl : above? last? event with
    | none => simp [hl] at h
    | some last =>
      simp only [hl, Except.error.injEq] at h
      subst h
      simp only [hl]

/-- An event that is offered. -/
theorem fates_ok (h : examine source last? e = .ok event) :
    fates policy source last? vs (e :: es) = match vs with
      | [] => []
      | .taken :: vs => .accepted event :: fates policy source (some event.sequence) vs es
      | .failed fault :: vs =>
        .failed event fault :: policy.rest (fates policy source last? vs es) := by
  rw [examine_eq] at h
  rw [fates]
  cases hc : e.check with
  | error cause => rw [hc] at h; exact absurd h (by simp)
  | ok event' =>
    rw [hc] at h
    cases hl : above? last? event' with
    | some last => simp [hl] at h
    | none =>
      simp only [hl, Except.ok.injEq] at h
      subst h
      simp only [hl]

/-! ## Walks that go on -/

/-- One more fate in a tally. -/
def Tally.count (t : Tally) (f : Fate) : Tally :=
  match f.reason? with
  | none => t.accept
  | some reason => t.reject reason

/-- What the reference says of the events that are left where a walk has stopped. -/
def Halt.ahead (policy : FailurePolicy) (last? : Option UInt64) (w : Walk)
    (vs : List Pipeline.Verdict) : Halt → List Fate
  | .offer _ => fates policy w.source last? vs w.todo
  | .done => []

/-- A walk that goes on from `w` with the verdicts `vs` stops at `h`, and the last number is `last'?`
then: on the way it passes events with the fates `row`. -/
structure Halted.Fares (policy : FailurePolicy) (w : Walk) (last? : Option UInt64)
    (vs : List Pipeline.Verdict) (row : List Fate) (last'? : Option UInt64) (h : Halted) :
    Prop where
  fates : ∀ us, fates policy w.source last? (vs ++ us) w.todo =
    row ++ h.halt.ahead policy last'? h.walk us
  tally : h.walk.tally = row.foldl Tally.count w.tally
  number : last'? = row.foldl Fate.number last?

/-- Events that were not offered. -/
def Refusals (row : List Fate) : Prop := ∀ f ∈ row, ∃ cause, f = .refused cause

theorem Refusals.offered {row : List Fate} (h : Refusals row) : offered row = [] := by
  refine List.filterMap_eq_nil_iff.mpr fun f hf => ?_
  obtain ⟨cause, rfl⟩ := h f hf
  rfl

theorem Refusals.accepted {row : List Fate} (h : Refusals row) : accepted row = [] := by
  refine List.filterMap_eq_nil_iff.mpr fun f hf => ?_
  obtain ⟨cause, rfl⟩ := h f hf
  rfl

/-- A walk passes the events that cannot be offered. -/
theorem advance_fares (source : String) (last? : Option UInt64) :
    ∀ (es : List Wire.Event) (t : Tally), ∃ row, Refusals row ∧
      (Walk.advance s source last? es t).Fares s.failurePolicy ⟨source, es, t⟩ last? [] row last?
  | [], t => by
    refine ⟨[], by simp [Refusals], fun us => ?_, rfl, rfl⟩
    rw [Walk.advance, fates]
    rfl
  | e :: es, t => by
    unfold Walk.advance
    cases hx : examine source last? e with
    | ok event => exact ⟨[], by simp [Refusals], fun us => rfl, rfl, rfl⟩
    | error cause =>
      cases hp : s.failurePolicy with
      | abort =>
        refine ⟨[.refused cause], by simp [Refusals], fun us => ?_, rfl, rfl⟩
        exact fates_error hx
      | proceed =>
        obtain ⟨row, refusals, fares⟩ := advance_fares source last? es (t.reject cause.message)
        rw [hp] at fares
        refine ⟨.refused cause :: row, ?_, fun us => ?_, fares.tally, fares.number⟩
        · exact List.forall_mem_cons.mpr ⟨⟨cause, rfl⟩, refusals⟩
        · exact (fates_error hx).trans (congrArg _ (fares.fates us))

/-- **A walk that goes on** passes the events that cannot be offered. -/
theorem resume_fares (s : Settings) (last? : Option UInt64) (w : Walk) :
    ∃ row, Refusals row ∧ (w.resume s last?).Fares s.failurePolicy w last? [] row last? :=
  advance_fares w.source last? w.todo w.tally

/-- **A walk with a verdict** on the event on offer passes it, and then those that cannot be
offered. -/
theorem settle_fares {w : Walk} (todo : w.todo = e :: es)
    (offer : examine w.source last? e = .ok event) (verdict : Pipeline.Verdict) :
    ∃ row, Refusals row ∧ (w.settle s last? event verdict).2.Fares s.failurePolicy w last? [verdict]
      (.ofVerdict event verdict :: row) (w.settle s last? event verdict).1 := by
  obtain ⟨source, _, tally⟩ := w
  simp only at todo offer
  subst todo
  unfold Walk.settle
  cases verdict with
  | taken =>
    obtain ⟨row, refusals, fares⟩ :=
      advance_fares (s := s) source (some event.sequence) es tally.accept
    refine ⟨row, refusals, fun us => ?_, fares.tally, fares.number⟩
    exact (fates_ok offer).trans (congrArg _ (fares.fates us))
  | failed fault =>
    cases hp : s.failurePolicy with
    | abort =>
      refine ⟨[], by simp [Refusals], fun us => ?_, rfl, rfl⟩
      exact fates_ok offer
    | proceed =>
      obtain ⟨row, refusals, fares⟩ := advance_fares (s := s) source last? es
        (tally.reject fault.message)
      rw [hp] at fares
      refine ⟨row, refusals, fun us => ?_, fares.tally, fares.number⟩
      exact (fates_ok offer).trans (congrArg _ (fares.fates us))

/-! ## Counting -/

/-- One more rejection; the first reason is kept. -/
theorem count_rejected (t : Tally) (reason : String) (row : List Fate) :
    (⟨(t.reject reason).total, (t.reject reason).processed + (accepted row).length,
        (t.reject reason).rejected + (reasons row).length,
        (t.reject reason).reason?.or (reasons row).head?⟩ : Tally) =
      ⟨t.total, t.processed + (accepted row).length,
        t.rejected + (reason :: reasons row).length, t.reason?.or (some reason)⟩ := by
  simp only [Tally.reject, List.length_cons, Option.some_or, Tally.mk.injEq, true_and]
  refine ⟨by omega, ?_⟩
  cases t.reason? <;> rfl

/-- What a tally has counted. -/
theorem foldl_count (row : List Fate) : ∀ t : Tally,
    row.foldl Tally.count t =
      ⟨t.total, t.processed + (accepted row).length, t.rejected + (reasons row).length,
        t.reason?.or (reasons row).head?⟩ := by
  induction row with
  | nil => simp [accepted, reasons]
  | cons f row ih =>
    intro t
    rw [List.foldl_cons, ih, accepted_cons, reasons_cons]
    cases f with
    | accepted event =>
      simp only [Tally.count, Fate.reason?, Fate.accepted?, Tally.accept, Option.toList_some,
        Option.toList_none, List.nil_append, List.singleton_append, List.length_cons]
      rw [Nat.add_right_comm, Nat.add_assoc]
    | refused cause => exact count_rejected t cause.message row
    | failed event fault => exact count_rejected t fault.message row

/-- Every fate is that of an accepted event or of a rejected one. -/
theorem length_row (row : List Fate) :
    row.length = (accepted row).length + (reasons row).length := by
  induction row with
  | nil => rfl
  | cons f row ih =>
    rw [accepted_cons, reasons_cons, List.length_cons, ih]
    cases f <;> simp [Fate.accepted?, Fate.reason?] <;> omega

/-- A row without rejections that no verdict would add to has the fates of all events. -/
theorem length_of_fates : ∀ {es : List Wire.Event} {last? : Option UInt64}
    {vs : List Pipeline.Verdict} {row : List Fate},
    (∀ us, fates policy source last? (vs ++ us) es = row) → reasons row = [] →
      row.length = es.length
  | [], _, _, _, stopped, _ => by rw [← stopped [], fates, List.length_nil, List.length_nil]
  | e :: es, last?, vs, row, stopped, clean => by
    cases hx : examine source last? e with
    | error cause =>
      rw [← stopped [], fates_error hx] at clean
      exact absurd clean (by simp [Fate.reason?])
    | ok event =>
      cases vs with
      | nil =>
        -- A verdict would add to the row.
        have more := (stopped [.taken]).trans (stopped []).symm
        rw [fates_ok hx, fates_ok hx] at more
        exact absurd more (by simp)
      | cons v vs =>
        cases v with
        | failed fault =>
          rw [← stopped [], fates_ok hx] at clean
          exact absurd clean (by simp [Fate.reason?])
        | taken =>
          have whole : ∀ us, .accepted event ::
              fates policy source (some event.sequence) (vs ++ us) es = row := fun us => by
            rw [← stopped us, fates_ok hx]
            rfl
          have rest : ∀ us, fates policy source (some event.sequence) (vs ++ us) es =
              fates policy source (some event.sequence) (vs ++ []) es := fun us =>
            (List.cons.inj ((whole us).trans (whole []).symm)).2
          rw [← whole []] at clean ⊢
          exact congrArg (· + 1) (length_of_fates rest clean)

/-- **A tally tells** what it has counted, if a row without rejections has the fates of all
events. -/
theorem tells_reply {total : Nat} {row : List Fate} (le : row.length ≤ total)
    (all : reasons row = [] → row.length = total) :
    Tells total row (row.foldl Tally.count (.start total)).reply := by
  have sum := length_row row
  rw [foldl_count]
  unfold Tally.reply
  simp only [Tally.start, Nat.zero_add, Option.none_or]
  cases hr : (reasons row).head? with
  | none =>
    have none := List.head?_eq_none_iff.mp hr
    rw [none] at sum
    refine ⟨rfl, iff_of_true rfl ?_, 0, ?_, ?_⟩
    · exact sum.symm.trans (all none)
    · rw [none]
      exact sum.symm.trans (all none)
    · rw [hr]
      exact (String.append_empty).symm
  | some first =>
    have some : 0 < (reasons row).length :=
      List.length_pos_iff.mpr fun e => by rw [e] at hr; exact absurd hr (by simp)
    refine ⟨rfl, iff_of_false Bool.false_ne_true (by omega),
      total - (accepted row).length - (reasons row).length, by omega, ?_⟩
    rw [hr]
    simp only [Tally.remaining, String.append_assoc]

end Dispatch

end ChangeRelay
