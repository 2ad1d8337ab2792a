import ChangeRelay.CallId
import Mathlib.Data.List.Basic

/-!
# Runs of a machine that serves calls

A dispatcher and a reaction handler are driven in the same way: calls come in with a request, each
under a name that no call in progress has, and then take steps in any order. `Machine` says what
that means, and a `Run` is one way that things can go from the start, written down moment by moment.

A name is free again once its call has ended, so a history knows calls by **number**: the calls that
come in are counted from zero on, and every moment carries the number of the call that took it.

* `Run.number_spec`: the number of a call in progress leads back to its name and its request.
* `Run.moment_spec`: so does the number at every moment.
* `Run.arrival_unique`, `Run.end_unique`: a call comes in once, and comes to its end once.
* `Run.busy_or_ended`: until then it is in progress.
* `Ending`: a step leaves a call in progress, or ends it with a drop or an answer.
* `run_iff_play`: a history is a run iff playing its labels writes down that history.
* `Completes.unique`: steps that a rule gives lead to one end.
-/

namespace ChangeRelay

universe u

/-- A machine that serves calls, step by step. -/
structure Machine (σ α ε ρ : Type u) where
  start : σ
  /-- The step under a label and its effects, if it can be taken. -/
  step : σ → α → Option (σ × List ε)
  /-- The name of the call that takes the step. -/
  name : α → CallId
  /-- What a call comes in with; only a call that comes in has it. -/
  request? : α → Option ρ
  /-- Whether a call of this name is in progress. -/
  busy : σ → CallId → Bool
  busy_start : ∀ id, busy start id = false
  busy_before : ∀ {st l r}, step st l = some r → busy st (name l) = (request? l).isNone
  busy_other : ∀ {st l r id}, step st l = some r → id ≠ name l → busy r.1 id = busy st id

/-- One step of a run. -/
structure Moment (σ α ε : Type u) where
  /-- The number of the call that took it. -/
  call : Nat
  label : α
  /-- The state in which it was taken. -/
  before : σ
  effects : List ε

namespace Machine

variable {σ α ε ρ : Type u} (M : Machine σ α ε ρ)

/-- The calls that came in, each with its name and its request. -/
def arrivals (ms : List (Moment σ α ε)) : List (CallId × ρ) :=
  ms.filterMap fun m => (M.request? m.label).map fun r => (M.name m.label, r)

/-- The number of the call that goes by a name: of those that came in under it, the last. -/
def numberOf (ms : List (Moment σ α ε)) (id : CallId) : Nat :=
  ms.foldl
    (fun n m => if (M.request? m.label).isSome ∧ M.name m.label = id then m.call else n) 0

/-- The number of the call that takes the next step. -/
def callOf (ms : List (Moment σ α ε)) (l : α) : Nat :=
  if (M.request? l).isSome then (M.arrivals ms).length else M.numberOf ms (M.name l)

/-- The next moment of a history. -/
def moment (ms : List (Moment σ α ε)) (st : σ) (l : α) (es : List ε) : Moment σ α ε :=
  ⟨M.callOf ms l, l, st, es⟩

/-- A history from the start, and the state it leads to. -/
inductive Run : List (Moment σ α ε) → σ → Prop
  | start : Run [] M.start
  | next {ms : List (Moment σ α ε)} {st st' : σ} {l : α} {es : List ε} (run : Run ms st)
      (h : M.step st l = some (st', es)) : Run (ms ++ [M.moment ms st l es]) st'

/-- Steps that the call `id`, which is in progress, takes in a row. -/
inductive Goes (id : CallId) : σ → List α → List ε → σ → Prop
  | stop {st : σ} : Goes id st [] [] st
  | step {st st' st'' : σ} {l : α} {ls : List α} {es es' : List ε}
      (h : M.step st l = some (st', es)) (name : M.name l = id) (old : M.request? l = none)
      (rest : Goes id st' ls es' st'') : Goes id st (l :: ls) (es ++ es') st''

/-- Writes down what happens under one label after the other, as long as the steps can be taken. -/
def playFrom (ms : List (Moment σ α ε)) (st : σ) : List α → Option (List (Moment σ α ε) × σ)
  | [] => some (ms, st)
  | l :: ls => match M.step st l with
    | some (st', es) => playFrom (ms ++ [M.moment ms st l es]) st' ls
    | none => none

def play (ls : List α) : Option (List (Moment σ α ε) × σ) := M.playFrom [] M.start ls

end Machine

namespace Moment

variable {σ α ε : Type u}

/-- What a call did, in order. -/
def labelsOf (ms : List (Moment σ α ε)) (n : Nat) : List α :=
  (ms.filter fun m => m.call = n).map Moment.label

/-- What came of it, in order. -/
def effectsOf (ms : List (Moment σ α ε)) (n : Nat) : List ε :=
  (ms.filter fun m => m.call = n).flatMap Moment.effects

theorem labelsOf_concat (ms : List (Moment σ α ε)) (m : Moment σ α ε) (n : Nat) :
    labelsOf (ms ++ [m]) n = labelsOf ms n ++ if m.call = n then [m.label] else [] := by
  unfold labelsOf
  rw [List.filter_append, List.map_append]
  by_cases h : m.call = n <;> simp [h]

theorem effectsOf_concat (ms : List (Moment σ α ε)) (m : Moment σ α ε) (n : Nat) :
    effectsOf (ms ++ [m]) n = effectsOf ms n ++ if m.call = n then m.effects else [] := by
  unfold effectsOf
  rw [List.filter_append, List.flatMap_append]
  by_cases h : m.call = n <;> simp [h]

theorem mem_effectsOf {ms : List (Moment σ α ε)} {n : Nat} {e : ε} :
    e ∈ effectsOf ms n ↔ ∃ m ∈ ms, m.call = n ∧ e ∈ m.effects := by
  simp [effectsOf, and_assoc]

theorem mem_labelsOf {ms : List (Moment σ α ε)} {n : Nat} {l : α} :
    l ∈ labelsOf ms n ↔ ∃ m ∈ ms, m.call = n ∧ m.label = l := by
  simp [labelsOf, and_assoc]

/-- A step of a call that is not among `ns`. -/
theorem flatMap_labelsOf {ms : List (Moment σ α ε)} {m : Moment σ α ε} {ns : List Nat}
    (hm : m.call ∉ ns) : ns.flatMap (labelsOf (ms ++ [m])) = ns.flatMap (labelsOf ms) := by
  refine List.flatMap_congr fun n hn => ?_
  have other : m.call ≠ n := fun e => hm (e ▸ hn)
  rw [labelsOf_concat, if_neg other, List.append_nil]

/-- A step of the last of them. -/
theorem flatMap_labelsOf_last {ms : List (Moment σ α ε)} {m : Moment σ α ε} {ns : List Nat}
    (nodup : (ns ++ [m.call]).Nodup) : (ns ++ [m.call]).flatMap (labelsOf (ms ++ [m])) =
      (ns ++ [m.call]).flatMap (labelsOf ms) ++ [m.label] := by
  have hm : m.call ∉ ns := fun hm =>
    (List.nodup_append.mp nodup).2.2 _ hm _ (List.mem_singleton_self _) rfl
  rw [List.flatMap_append, List.flatMap_append, flatMap_labelsOf hm, List.flatMap_singleton,
    List.flatMap_singleton, labelsOf_concat, if_pos rfl, List.append_assoc]

/-- A moment of a history that has grown is the new one, or it was there before. -/
theorem split_concat {ms pre post : List (Moment σ α ε)} {m m' : Moment σ α ε}
    (h : ms ++ [m] = pre ++ m' :: post) :
    ms = pre ∧ m = m' ∨ ∃ post', ms = pre ++ m' :: post' := by
  rcases List.eq_nil_or_concat post with rfl | ⟨post', m'', rfl⟩
  · obtain ⟨rfl, hm⟩ := List.append_inj' h rfl
    exact .inl ⟨rfl, (List.cons.inj hm).1⟩
  · rw [List.concat_eq_append, ← List.cons_append, ← List.append_assoc] at h
    exact .inr ⟨post', (List.append_inj' h rfl).1⟩

theorem effectsOf_append (ms ms' : List (Moment σ α ε)) (n : Nat) :
    effectsOf (ms ++ ms') n = effectsOf ms n ++ effectsOf ms' n := by
  unfold effectsOf
  rw [List.filter_append, List.flatMap_append]

theorem effectsOf_same {ms : List (Moment σ α ε)} {n : Nat} (h : ∀ m ∈ ms, m.call = n) :
    effectsOf ms n = ms.flatMap Moment.effects := by
  unfold effectsOf
  rw [List.filter_eq_self.mpr fun m hm => decide_eq_true (h m hm)]

theorem effectsOf_other {ms : List (Moment σ α ε)} {n n' : Nat} (h : ∀ m ∈ ms, m.call = n)
    (hn : n ≠ n') : effectsOf ms n' = [] := by
  unfold effectsOf
  rw [List.filter_eq_nil_iff.mpr fun m hm => by simpa [h m hm] using hn, List.flatMap_nil]

end Moment

namespace Machine

variable {σ α ε ρ : Type u} {M : Machine σ α ε ρ}
variable {ms : List (Moment σ α ε)} {st st' : σ} {l : α} {es : List ε}

/-! ## Numbers -/

theorem arrivals_concat_some (m : Moment σ α ε) {r : ρ} (h : M.request? m.label = some r) :
    M.arrivals (ms ++ [m]) = M.arrivals ms ++ [(M.name m.label, r)] := by
  simp [arrivals, List.filterMap_append, h]

theorem arrivals_concat_none (m : Moment σ α ε) (h : M.request? m.label = none) :
    M.arrivals (ms ++ [m]) = M.arrivals ms := by
  simp [arrivals, List.filterMap_append, h]

/-- Calls keep their numbers. -/
theorem arrivals_mono (ms ms' : List (Moment σ α ε)) {n : Nat} {a : CallId × ρ}
    (h : (M.arrivals ms)[n]? = some a) : (M.arrivals (ms ++ ms'))[n]? = some a := by
  rw [arrivals, List.filterMap_append]
  exact (List.getElem?_append_left (List.getElem?_eq_some_iff.mp h).1).trans h

theorem numberOf_concat (m : Moment σ α ε) (id : CallId) :
    M.numberOf (ms ++ [m]) id =
      if (M.request? m.label).isSome ∧ M.name m.label = id then m.call else M.numberOf ms id := by
  simp [numberOf, List.foldl_append]

theorem callOf_some {r : ρ} (h : M.request? l = some r) :
    M.callOf ms l = (M.arrivals ms).length := by
  simp [callOf, h]

theorem callOf_none (h : M.request? l = none) : M.callOf ms l = M.numberOf ms (M.name l) := by
  simp [callOf, h]

/-- Only a call that comes in gives its name a new number. -/
theorem numberOf_next (id : CallId) (h : M.request? l = none ∨ id ≠ M.name l) :
    M.numberOf (ms ++ [M.moment ms st l es]) id = M.numberOf ms id := by
  rw [numberOf_concat, if_neg]
  rintro ⟨hs, hn⟩
  rcases h with h | h
  · simp [moment, h] at hs
  · exact h hn.symm

theorem numberOf_next_self {r : ρ} (h : M.request? l = some r) :
    M.numberOf (ms ++ [M.moment ms st l es]) (M.name l) = (M.arrivals ms).length := by
  rw [numberOf_concat, if_pos ⟨by simp [moment, h], rfl⟩]
  exact callOf_some h

/-- The call that takes a step goes by its name then. -/
theorem numberOf_next_name :
    M.numberOf (ms ++ [M.moment ms st l es]) (M.name l) = M.callOf ms l := by
  cases hr : M.request? l with
  | some r => rw [numberOf_next_self hr, callOf_some hr]
  | none => rw [numberOf_next _ (.inl hr), callOf_none hr]

/-- A call that comes in is the last of the arrivals, and its name is its own. -/
theorem arrivals_next {r : ρ} (h : M.request? l = some r) :
    (M.arrivals (ms ++ [M.moment ms st l es]))[M.callOf ms l]? = some (M.name l, r) := by
  rw [arrivals_concat_some (M.moment ms st l es) h, callOf_some h]
  simp [moment]

theorem arrivals_next_self {r : ρ} (h : M.request? l = some r) :
    (M.arrivals (ms ++ [M.moment ms st l es]))[
      M.numberOf (ms ++ [M.moment ms st l es]) (M.name l)]? = some (M.name l, r) := by
  rw [numberOf_next_name]
  exact arrivals_next h

/-- **Names and numbers.** The number of a call in progress is that of an arrival under its name. -/
theorem Run.number_spec (run : M.Run ms st) {id : CallId} (h : M.busy st id = true) :
    ∃ r, (M.arrivals ms)[M.numberOf ms id]? = some (id, r) := by
  induction run with
  | start => rw [M.busy_start] at h; exact absurd h (by simp)
  | @next ms st st' l es run hs ih =>
    cases hr : M.request? l with
    | some r =>
      by_cases hid : id = M.name l
      · subst hid
        exact ⟨r, arrivals_next_self hr⟩
      · rw [arrivals_concat_some (M.moment ms st l es) hr, numberOf_next id (.inr hid)]
        obtain ⟨r', h'⟩ := ih (M.busy_other hs hid ▸ h)
        exact ⟨r', (List.getElem?_append_left (List.getElem?_eq_some_iff.mp h').1).trans h'⟩
    | none =>
      rw [arrivals_concat_none (M.moment ms st l es) hr, numberOf_next id (.inl hr)]
      by_cases hid : id = M.name l
      · subst hid
        exact ih (by rw [M.busy_before hs, hr]; rfl)
      · exact ih (M.busy_other hs hid ▸ h)

theorem Run.number_lt (run : M.Run ms st) {id : CallId} (h : M.busy st id = true) :
    M.numberOf ms id < (M.arrivals ms).length := by
  obtain ⟨r, h⟩ := run.number_spec h
  exact (List.getElem?_eq_some_iff.mp h).1

/-- Two calls in progress have two numbers. -/
theorem Run.number_inj (run : M.Run ms st) {id id' : CallId} (h : M.busy st id = true)
    (h' : M.busy st id' = true) (e : M.numberOf ms id = M.numberOf ms id') : id = id' := by
  obtain ⟨r, hr⟩ := run.number_spec h
  obtain ⟨r', hr'⟩ := run.number_spec h'
  rw [e, hr'] at hr
  exact (congrArg Prod.fst (Option.some.inj hr)).symm

/-- A step is not one of another call in progress. -/
theorem Run.callOf_ne (run : M.Run ms st) (h : M.step st l = some (st', es)) {id : CallId}
    (busy : M.busy st id = true) (hid : id ≠ M.name l) : M.callOf ms l ≠ M.numberOf ms id := by
  cases hr : M.request? l with
  | some r =>
    have := run.number_lt busy
    rw [callOf_some hr]
    omega
  | none =>
    rw [callOf_none hr]
    exact fun e => hid (run.number_inj (by rw [M.busy_before h, hr]; rfl) busy e).symm

/-- The call that takes a step has come in by then. -/
theorem Run.call_spec (run : M.Run ms st) (h : M.step st l = some (st', es)) :
    ∃ r, (M.arrivals (ms ++ [M.moment ms st l es]))[M.callOf ms l]? = some (M.name l, r) := by
  cases hr : M.request? l with
  | some r => exact ⟨r, arrivals_next hr⟩
  | none =>
    rw [arrivals_concat_none (M.moment ms st l es) hr, callOf_none hr]
    exact run.number_spec (by rw [M.busy_before h, hr]; rfl)

/-- **Moments and numbers.** The number at a moment is that of an arrival under the name of the
call that took the step. -/
theorem Run.moment_spec (run : M.Run ms st) {m : Moment σ α ε} (hm : m ∈ ms) :
    ∃ r, (M.arrivals ms)[m.call]? = some (M.name m.label, r) := by
  induction run with
  | start => exact absurd hm (by simp)
  | @next ms st st' l es run hs ih =>
    rcases List.mem_append.mp hm with h | h
    · obtain ⟨r, hr⟩ := ih h
      exact ⟨r, arrivals_mono ms _ hr⟩
    · rw [List.mem_singleton.mp h]
      exact run.call_spec hs

theorem Run.call_lt (run : M.Run ms st) {m : Moment σ α ε} (hm : m ∈ ms) :
    m.call < (M.arrivals ms).length := by
  obtain ⟨r, h⟩ := run.moment_spec hm
  exact (List.getElem?_eq_some_iff.mp h).1

/-- A call that has not come in has done nothing. -/
theorem Run.labelsOf_fresh (run : M.Run ms st) {n : Nat} (h : (M.arrivals ms).length ≤ n) :
    Moment.labelsOf ms n = [] := by
  unfold Moment.labelsOf
  rw [List.map_eq_nil_iff, List.filter_eq_nil_iff]
  intro m hm e
  have := run.call_lt hm
  rw [decide_eq_true_eq] at e
  omega

theorem Run.effectsOf_fresh (run : M.Run ms st) {n : Nat} (h : (M.arrivals ms).length ≤ n) :
    Moment.effectsOf ms n = [] := by
  unfold Moment.effectsOf
  rw [List.filter_eq_nil_iff.mpr, List.flatMap_nil]
  intro m hm e
  have := run.call_lt hm
  rw [decide_eq_true_eq] at e
  omega

/-- The beginning of a run is a run, to the state in which the next step is taken. -/
theorem Run.before {ms' : List (Moment σ α ε)} {m : Moment σ α ε}
    (run : M.Run (ms ++ m :: ms') st) :
    M.Run ms m.before ∧ m = M.moment ms m.before m.label m.effects ∧
      ∃ st', M.step m.before m.label = some (st', m.effects) := by
  generalize hh : ms ++ m :: ms' = h at run
  induction run generalizing ms' with
  | start => exact absurd hh (by simp)
  | @next h st st' l es run hs ih =>
    rcases Moment.split_concat hh.symm with ⟨rfl, rfl⟩ | ⟨ms'', rfl⟩
    · exact ⟨run, rfl, st', hs⟩
    · exact ih rfl

/-- The last step of a run. -/
theorem Run.last {m : Moment σ α ε} (run : M.Run (ms ++ [m]) st') : ∃ st l es,
    M.Run ms st ∧ M.step st l = some (st', es) ∧ m = M.moment ms st l es := by
  generalize hh : ms ++ [m] = h at run
  cases run with
  | start => exact absurd hh (by simp)
  | @next h st _ l es run hs =>
    obtain ⟨rfl, hm⟩ := List.append_inj' hh rfl
    exact ⟨st, l, es, run, hs, (List.cons.inj hm).1⟩

/-- A call that comes in has done nothing before. -/
theorem Run.arrives_first {ms' : List (Moment σ α ε)} {m : Moment σ α ε}
    (run : M.Run (ms ++ m :: ms') st) (hr : (M.request? m.label).isSome = true)
    {m' : Moment σ α ε} (hm : m' ∈ ms) : m'.call ≠ m.call := by
  obtain ⟨run, hm', -⟩ := run.before
  obtain ⟨r, hr⟩ := Option.isSome_iff_exists.mp hr
  have := run.call_lt hm
  rw [hm', show (M.moment ms m.before m.label m.effects).call = _ from callOf_some hr]
  omega

/-- A call comes in before it does anything else. -/
theorem Run.arrival_before {h pre pre' post post' : List (Moment σ α ε)} {m m' : Moment σ α ε}
    (run : M.Run h st) (split : h = pre ++ m :: post) (split' : h = pre' ++ m' :: post')
    (hr : (M.request? m.label).isSome = true) (same : m.call = m'.call) :
    pre = pre' ∧ m = m' ∨ ∃ mid, pre' = pre ++ m :: mid := by
  rcases List.append_eq_append_iff.mp (split.symm.trans split') with
    ⟨mid, hpre, hm⟩ | ⟨mid, hpre, hm⟩
  · cases mid with
    | nil => exact .inl ⟨by rw [hpre, List.append_nil], (List.cons.inj hm).1⟩
    | cons n mid =>
      obtain rfl := (List.cons.inj hm).1
      exact .inr ⟨mid, hpre⟩
  · cases mid with
    | nil => exact .inl ⟨by rw [hpre, List.append_nil], (List.cons.inj hm).1.symm⟩
    | cons n mid =>
      obtain rfl := (List.cons.inj hm).1
      refine absurd same.symm (Run.arrives_first (split ▸ run) hr ?_)
      simp [hpre]

/-- **A call comes in once.** -/
theorem Run.arrival_unique {h pre pre' post post' : List (Moment σ α ε)} {m m' : Moment σ α ε}
    (run : M.Run h st) (split : h = pre ++ m :: post) (split' : h = pre' ++ m' :: post')
    (hr : (M.request? m.label).isSome = true) (hr' : (M.request? m'.label).isSome = true)
    (same : m.call = m'.call) : pre = pre' ∧ m = m' := by
  rcases run.arrival_before split split' hr same with h | ⟨mid, rfl⟩
  · exact h
  · exact absurd same (Run.arrives_first (split' ▸ run) hr' (by simp))

/-! ## Ends -/

/-- The moments `P` are the last ones of their calls. -/
def Last (M : Machine σ α ε ρ) (P : α → List ε → Prop) : Prop :=
  ∀ {st l st' es}, M.step st l = some (st', es) → P l es → M.busy st' (M.name l) = false

/-- A call in progress has not come to its end. -/
theorem Run.not_ended {P : α → List ε → Prop} (last : M.Last P) (run : M.Run ms st) {id : CallId}
    (busy : M.busy st id = true) {m : Moment σ α ε} (hm : m ∈ ms)
    (hn : m.call = M.numberOf ms id) : ¬P m.label m.effects := by
  induction run generalizing id with
  | start => exact absurd hm (by simp)
  | @next ms st st' l es run hs ih =>
    rcases List.mem_append.mp hm with hm | hm
    · by_cases hid : id = M.name l
      · rw [hid, numberOf_next_name] at hn
        cases hr : M.request? l with
        | some r =>
          have := run.call_lt hm
          rw [hn, callOf_some hr] at this
          exact absurd this (Nat.lt_irrefl _)
        | none =>
          rw [callOf_none hr] at hn
          exact ih (by rw [M.busy_before hs, hr]; rfl) hm hn
      · rw [numberOf_next id (.inr hid)] at hn
        exact ih ((M.busy_other hs hid).symm.trans busy) hm hn
    · obtain rfl := List.mem_singleton.mp hm
      by_cases hid : id = M.name l
      · rw [hid] at busy
        intro end_
        exact absurd ((last hs end_).symm.trans busy) (by simp)
      · rw [numberOf_next id (.inr hid)] at hn
        exact absurd hn (run.callOf_ne hs ((M.busy_other hs hid).symm.trans busy) hid)

/-- Nothing is done by a call that has come to its end. -/
theorem Run.nothing_after {P : α → List ε → Prop} (last : M.Last P)
    (run : M.Run ms st) (hs : M.step st l = some (st', es)) {m : Moment σ α ε} (hm : m ∈ ms)
    (end_ : P m.label m.effects) : m.call ≠ M.callOf ms l := by
  intro same
  cases hr : M.request? l with
  | some r =>
    have := run.call_lt hm
    rw [same, callOf_some hr] at this
    exact absurd this (Nat.lt_irrefl _)
  | none =>
    rw [callOf_none hr] at same
    exact run.not_ended last (by rw [M.busy_before hs, hr]; rfl) hm same end_

/-- **A call comes to its end once.** -/
theorem Run.end_unique {P : α → List ε → Prop} (last : M.Last P) (run : M.Run ms st)
    {m m' : Moment σ α ε} (hm : m ∈ ms) (hm' : m' ∈ ms) (same : m.call = m'.call)
    (end_ : P m.label m.effects) (end' : P m'.label m'.effects) : m = m' := by
  induction run with
  | start => exact absurd hm (by simp)
  | @next ms st st' l es run hs ih =>
    rw [List.mem_append, List.mem_singleton] at hm hm'
    rcases hm with hm | rfl
    · rcases hm' with hm' | rfl
      · exact ih hm hm'
      · exact absurd same (run.nothing_after last hs hm end_)
    · rcases hm' with hm' | rfl
      · exact absurd same.symm (run.nothing_after last hs hm' end')
      · rfl

/-- Every call that is over took a step with `P`. -/
def Ends (M : Machine σ α ε ρ) (P : α → List ε → Prop) : Prop :=
  ∀ {st l st' es}, M.step st l = some (st', es) → M.busy st' (M.name l) = false → P l es

/-- A call that came in is in progress, or it has come to its end. -/
theorem Run.busy_or_ended {P : α → List ε → Prop} (ends : M.Ends P) (run : M.Run ms st) {n : Nat}
    (hn : n < (M.arrivals ms).length) : (∃ id, M.busy st id = true ∧ M.numberOf ms id = n) ∨
      ∃ m ∈ ms, m.call = n ∧ P m.label m.effects := by
  induction run generalizing n with
  | start => exact absurd hn (Nat.not_lt_zero n)
  | @next ms st st' l es run hs ih =>
    by_cases own : M.callOf ms l = n
    · cases busy : M.busy st' (M.name l) with
      | true => exact .inl ⟨M.name l, busy, numberOf_next_name.trans own⟩
      | false => exact .inr ⟨M.moment ms st l es, by simp, own, ends hs busy⟩
    · have old : n < (M.arrivals ms).length := by
        cases hr : M.request? l with
        | none => rwa [arrivals_concat_none (M.moment ms st l es) hr] at hn
        | some r =>
          rw [arrivals_concat_some (M.moment ms st l es) hr, List.length_append,
            List.length_singleton] at hn
          rw [callOf_some hr] at own
          omega
      rcases ih old with ⟨id, busy, number⟩ | ⟨m, hm, hn, end_⟩
      · by_cases hid : id = M.name l
        · subst hid
          have hr : M.request? l = none := by
            rw [M.busy_before hs] at busy
            exact Option.isNone_iff_eq_none.mp busy
          exact absurd ((callOf_none hr).trans number) own
        · refine .inl ⟨id, (M.busy_other hs hid).trans busy, ?_⟩
          rw [numberOf_next id (.inr hid), number]
      · exact .inr ⟨m, List.mem_append_left _ hm, hn, end_⟩

/-- The calls that have come to their end, each once. -/
theorem Run.nodup_ended {P : α → List ε → Prop} [∀ l es, Decidable (P l es)] (last : M.Last P)
    (run : M.Run ms st) :
    ((ms.filter fun m => P m.label m.effects).map Moment.call).Nodup := by
  induction run with
  | start => exact .nil
  | @next ms st st' l es run hs ih =>
    rw [List.filter_append, List.map_append, List.nodup_append]
    refine ⟨ih, ?_, ?_⟩
    · by_cases end_ : P l es <;> simp [moment, end_]
    · rintro n hn n' hn' rfl
      obtain ⟨m, hm, rfl⟩ := List.mem_map.mp hn
      obtain ⟨m', hm', same⟩ := List.mem_map.mp hn'
      rw [List.mem_filter, decide_eq_true_eq] at hm
      obtain rfl := List.mem_singleton.mp (List.mem_filter.mp hm').1
      exact run.nothing_after last hs hm.1 hm.2 same.symm

/-! ## Steps in a row -/

/-- What a run is followed by: `ls` and `es` in a row, all of the call numbered `n`. -/
structure Row (ms' : List (Moment σ α ε)) (n : Nat) (ls : List α) (es : List ε) : Prop where
  labels : ms'.map Moment.label = ls
  effects : ms'.flatMap Moment.effects = es
  call : ∀ m ∈ ms', m.call = n

theorem Row.label_mem {ms' : List (Moment σ α ε)} {n : Nat} {ls : List α} {es : List ε}
    (row : Row ms' n ls es) {m : Moment σ α ε} (hm : m ∈ ms') : m.label ∈ ls := by
  rw [← row.labels]
  exact List.mem_map_of_mem hm

theorem Row.effectsOf {ms' : List (Moment σ α ε)} {n : Nat} {ls : List α} {es : List ε}
    (row : Row ms' n ls es) (ms : List (Moment σ α ε)) (i : Nat) :
    Moment.effectsOf (ms ++ ms') i = Moment.effectsOf ms i ++ if n = i then es else [] := by
  rw [Moment.effectsOf_append]
  by_cases hn : n = i
  · rw [if_pos hn, ← row.effects, Moment.effectsOf_same fun m hm => (row.call m hm).trans hn]
  · rw [if_neg hn, Moment.effectsOf_other row.call hn]

theorem Row.labelsOf {ms' : List (Moment σ α ε)} {n : Nat} {ls : List α} {es : List ε}
    (row : Row ms' n ls es) (ms : List (Moment σ α ε)) :
    Moment.labelsOf (ms ++ ms') n = Moment.labelsOf ms n ++ ls := by
  have all : ms'.filter (fun m => m.call = n) = ms' :=
    List.filter_eq_self.mpr fun m hm => decide_eq_true (row.call m hm)
  unfold Moment.labelsOf
  rw [List.filter_append, List.map_append, all, row.labels]

/-- A call in progress goes on for a while. -/
theorem Run.goes {id : CallId} {ls : List α} (g : M.Goes id st ls es st') (run : M.Run ms st) :
    ∃ ms', M.Run (ms ++ ms') st' ∧ Row ms' (M.numberOf ms id) ls es ∧
      M.arrivals (ms ++ ms') = M.arrivals ms ∧
      ∀ id', M.numberOf (ms ++ ms') id' = M.numberOf ms id' := by
  induction g generalizing ms with
  | @stop st =>
    refine ⟨[], ?_, ⟨rfl, rfl, by simp⟩, by simp, by simp⟩
    rwa [List.append_nil]
  | @step st st' st'' l ls es es' h name old rest ih =>
    obtain ⟨ms', run', row, arrivals, number⟩ := ih (run.next h)
    have kept : ∀ id', M.numberOf (ms ++ [M.moment ms st l es]) id' = M.numberOf ms id' :=
      fun id' => numberOf_next id' (.inl old)
    rw [List.append_assoc] at run' arrivals
    refine ⟨[M.moment ms st l es] ++ ms', run', ⟨?_, ?_, ?_⟩, ?_, fun id' => ?_⟩
    · rw [List.map_append, row.labels]
      rfl
    · rw [List.flatMap_append, row.effects, List.flatMap_singleton]
      rfl
    · intro m hm
      rcases List.mem_append.mp hm with hm | hm
      · rw [List.mem_singleton.mp hm, ← name]
        exact callOf_none old
      · rw [row.call m hm, kept]
    · rw [arrivals, arrivals_concat_none (M.moment ms st l es) old]
    · rw [← List.append_assoc, number, kept]

/-- A call comes in and goes on for a while. -/
theorem Run.arrives {ls : List α} {r : ρ} {st'' : σ} {es' : List ε} (run : M.Run ms st)
    (h : M.step st l = some (st', es)) (hr : M.request? l = some r)
    (g : M.Goes (M.name l) st' ls es' st'') :
    ∃ ms', M.Run (ms ++ M.moment ms st l es :: ms') st'' ∧
      Row (M.moment ms st l es :: ms') (M.arrivals ms).length (l :: ls) (es ++ es') ∧
      M.arrivals (ms ++ M.moment ms st l es :: ms') = M.arrivals ms ++ [(M.name l, r)] ∧
      M.numberOf (ms ++ M.moment ms st l es :: ms') (M.name l) = (M.arrivals ms).length := by
  obtain ⟨ms', run', row, arrivals, number⟩ := (run.next h).goes g
  rw [numberOf_next_self hr] at row
  rw [List.append_assoc, List.singleton_append] at run' arrivals
  refine ⟨ms', run', ⟨?_, ?_, ?_⟩, ?_, ?_⟩
  · rw [List.map_cons, row.labels]
    rfl
  · rw [List.flatMap_cons, row.effects]
    rfl
  · intro m hm
    rcases List.mem_cons.mp hm with rfl | hm
    · exact callOf_some hr
    · exact row.call m hm
  · rw [arrivals, arrivals_concat_some (M.moment ms st l es) hr]
    rfl
  · have := number (M.name l)
    rwa [numberOf_next_self hr, List.append_assoc, List.singleton_append] at this

/-! ## Playing labels -/

theorem playFrom_append (ls ls' : List α) : ∀ (ms : List (Moment σ α ε)) (st : σ),
    M.playFrom ms st (ls ++ ls') = (M.playFrom ms st ls).bind fun r => M.playFrom r.1 r.2 ls' := by
  induction ls with
  | nil => intro ms st; rfl
  | cons l ls ih =>
    intro ms st
    rw [List.cons_append, playFrom, playFrom]
    cases M.step st l with
    | none => rfl
    | some r => exact ih _ _

theorem run_of_playFrom (ls : List α) {ms ms' : List (Moment σ α ε)} {st st' : σ}
    (run : M.Run ms st) (h : M.playFrom ms st ls = some (ms', st')) : M.Run ms' st' := by
  induction ls generalizing ms st with
  | nil =>
    obtain ⟨rfl, rfl⟩ := Prod.mk.inj (Option.some.inj h)
    exact run
  | cons l ls ih =>
    rw [playFrom] at h
    split at h
    · next hs => exact ih (run.next hs) h
    · exact absurd h (by simp)

theorem run_of_play {ls : List α} (h : M.play ls = some (ms, st)) : M.Run ms st :=
  run_of_playFrom ls .start h

/-- **Runs are what playing writes down.** -/
theorem run_iff_play : M.Run ms st ↔ M.play (ms.map Moment.label) = some (ms, st) := by
  refine ⟨fun run => ?_, run_of_play⟩
  induction run with
  | start => rfl
  | @next ms st st' l es run hs ih =>
    rw [play] at ih ⊢
    rw [List.map_append, playFrom_append, ih]
    simp [playFrom, moment, hs]

/-- A history leads to one state. -/
theorem Run.unique (run : M.Run ms st) (run' : M.Run ms st') : st = st' := by
  have same := (run_iff_play.mp run).symm.trans (run_iff_play.mp run')
  exact congrArg Prod.snd (Option.some.inj same)

end Machine

/-! ## Endings -/

/-- What a step leaves of the call that takes it: the call goes on, it is dropped, or it is told
something and is over. -/
inductive Ending {ρ : Type} (id : CallId) : (busy dropped : Bool) → List (CallId × ρ) → Prop
  | goesOn : Ending id true false []
  | dropped : Ending id false true []
  | told (reply : ρ) : Ending id false false [(id, reply)]

theorem Ending.map {ρ ρ' : Type} {id : CallId} {busy dropped : Bool} {told : List (CallId × ρ)}
    (e : Ending id busy dropped told) (f : ρ → ρ') :
    Ending id busy dropped (told.map fun t => (t.1, f t.2)) := by
  cases e with
  | goesOn => exact .goesOn
  | dropped => exact .dropped
  | told reply => exact .told (f reply)

theorem Ending.of_dropped {ρ : Type} {id : CallId} {busy : Bool} {told : List (CallId × ρ)}
    (e : Ending id busy true told) : busy = false ∧ told = [] := by
  cases e
  exact ⟨rfl, rfl⟩

theorem Ending.of_told {ρ : Type} {id id' : CallId} {busy dropped : Bool}
    {told : List (CallId × ρ)} {reply : ρ} (e : Ending id busy dropped told)
    (h : (id', reply) ∈ told) : id' = id ∧ busy = false ∧ dropped = false := by
  cases e with
  | goesOn => exact absurd h List.not_mem_nil
  | dropped => exact absurd h List.not_mem_nil
  | told _ =>
    obtain ⟨rfl, -⟩ := Prod.mk.inj (List.mem_singleton.mp h)
    exact ⟨rfl, rfl, rfl⟩

/-- A call that does not go on is dropped or told something. -/
theorem Ending.over_iff {ρ : Type} {id : CallId} {busy dropped : Bool} {told : List (CallId × ρ)}
    (e : Ending id busy dropped told) : busy = false ↔ told ≠ [] ∨ dropped = true := by
  cases e <;> simp

/-- It is told one thing. -/
theorem Ending.single {ρ : Type} {id : CallId} {busy dropped : Bool} {told : List (CallId × ρ)}
    (e : Ending id busy dropped told) (some : told ≠ []) : ∃ reply, told = [(id, reply)] := by
  cases e with
  | goesOn => exact absurd rfl some
  | dropped => exact absurd rfl some
  | told reply => exact ⟨reply, rfl⟩

/-! ## Going on by a rule -/

/-- What comes of taking the steps that a rule gives, one after the other, until it gives none. -/
inductive Completes {σ α : Type u} (next? : σ → Option α) (take : σ → α → Option σ) : σ → σ → Prop
  | stop {st : σ} (gone : next? st = none) : Completes next? take st st
  | step {st st' st'' : σ} {l : α} (next : next? st = some l) (taken : take st l = some st')
      (rest : Completes next? take st' st'') : Completes next? take st st''

namespace Completes

variable {σ α : Type u} {next? : σ → Option α} {take : σ → α → Option σ} {st st' st'' : σ} {l : α}

theorem gone (f : Completes next? take st st') : next? st' = none := by
  induction f with
  | stop gone => exact gone
  | step _ _ _ ih => exact ih

/-- Behind its first step it goes on by the same rule. -/
theorem next (f : Completes next? take st st'') (next : next? st = some l)
    (taken : take st l = some st') : Completes next? take st' st'' := by
  cases f with
  | stop gone => exact absurd (gone.symm.trans next) (by simp)
  | step next' taken' rest =>
    obtain rfl := Option.some.inj (next.symm.trans next')
    obtain rfl := Option.some.inj (taken.symm.trans taken')
    exact rest

/-- **What comes of it is fixed.** -/
theorem unique (f : Completes next? take st st') (f' : Completes next? take st st'') : st' = st'' := by
  induction f with
  | stop gone =>
    cases f' with
    | stop => rfl
    | step next => exact absurd (gone.symm.trans next) (by simp)
  | step next taken _ ih => exact ih (f'.next next taken)

end Completes

end ChangeRelay
