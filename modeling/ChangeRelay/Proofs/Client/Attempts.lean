import ChangeRelay.Client.Retry
import Mathlib.Logic.Function.Iterate

/-!
# What attempts come to

A call that is retried is the same call over and over, each time from where the one before has left
things. The last of them decides what comes back. It is the first that settles the matter, by a
reply or by a failure that will not pass, or else the last one that the policy admits.

`loop` says the same act by act, as `run` of `RetryPolicy` goes, with the number of the next retry in
a word of 32 bits: it attempts the call, sleeps, and attempts it again.

* **`run_spec`**: a call that is retried leaves things as so many calls in a row do, and comes back
  with what the last of them came to.
* `length_delays`, `delays_eq`: how often it is retried, and after which delays.
* `loop_eq_acts`: the loop makes these attempts with these delays between them, and the number of
  its next retry does not overflow.
* **`run_follows`**: all of this of one run.
* `run_view`: to look at less of what is left does not change how often a call is retried.
* `record_of_run`: whoever keeps a record of the attempts has one entry for each.
-/

namespace ChangeRelay.Client

variable {σ α β : Type}

/-- What a call leaves. -/
def leaves (call : σ → Except Failure α × σ) (s : σ) : σ := (call s).2

/-- The outcomes of calls in a row, the first of which is number 0. -/
def nth (call : σ → Except Failure α × σ) (s : σ) (i : Nat) : Except Failure α :=
  (call ((leaves call)^[i] s)).1

/-- Whether no attempt follows an outcome, however many the policy admits. -/
def settles : Except Failure α → Bool
  | .ok _ => true
  | .error failure => !failure.isRetryable

/-- `a` is what so many calls in a row from `s` come to. -/
structure Attempted.Sums (a : Attempted σ α) (call : σ → Except Failure α × σ) (s : σ) : Prop where
  state : a.state = (leaves call)^[a.count] s
  outcome : a.outcome = (call ((leaves call)^[a.delays.length] s)).1

namespace RetryPolicy

variable {p : RetryPolicy} {call : σ → Except Failure α × σ} {s s' : σ} {reply : α}

/-- One attempt, and the rest: an outcome that settles the matter is the last, and another one is
followed by a delay and the attempts from the next retry on. -/
theorem attempts_succ (p : RetryPolicy) (call : σ → Except Failure α × σ) (left retry : Nat)
    (s : σ) : p.attempts call (left + 1) retry s =
      if settles (call s).1 then ⟨(call s).1, leaves call s, []⟩
      else
        let rest := p.attempts call left (retry + 1) (leaves call s)
        { rest with delays := p.delay retry :: rest.delays } := by
  rw [attempts]
  split
  · next reply s' h => simp [leaves, h, settles]
  · next failure s' h => cases passing : failure.isRetryable <;> simp [leaves, h, settles, passing]

theorem attempts_sums (left retry : Nat) (s : σ) : (p.attempts call left retry s).Sums call s := by
  induction left generalizing retry s with
  | zero => exact ⟨rfl, rfl⟩
  | succ left ih =>
    rw [attempts_succ]
    split
    · exact ⟨rfl, rfl⟩
    · obtain ⟨state, outcome⟩ := ih (retry + 1) (leaves call s)
      exact ⟨state, outcome⟩

/-- **A call that is retried** is so many calls in a row. -/
theorem run_spec (p : RetryPolicy) (call : σ → Except Failure α × σ) (s : σ) :
    (p.run call s).Sums call s :=
  attempts_sums p.maxRetries 0 s

/-- A reply is that of some call. -/
theorem ok_of_run (h : (p.run call s).outcome = .ok reply) : ∃ s₁ s₂, call s₁ = (.ok reply, s₂) :=
  ⟨_, _, Prod.ext ((run_spec p call s).outcome.symm.trans h) rfl⟩

/-- A call that is answered is not retried. -/
theorem run_of_ok (h : call s = (.ok reply, s')) : p.run call s = ⟨.ok reply, s', []⟩ := by
  unfold run
  cases p.maxRetries with
  | zero => rw [attempts, h]
  | succ left => rw [attempts, h]

/-- **The retries** are those before the first outcome that settles the matter. -/
theorem length_delays (left retry : Nat) (s : σ) : (p.attempts call left retry s).delays.length =
    (List.range left).findIdx fun i => settles (nth call s i) := by
  induction left generalizing retry s with
  | zero => rfl
  | succ left ih =>
    rw [attempts_succ, List.range_succ_eq_map, List.findIdx_cons, List.findIdx_map]
    show List.length (Attempted.delays (if settles (nth call s 0) then _ else _)) = _
    cases h : settles (nth call s 0) with
    | true => rfl
    | false => exact congrArg (· + 1) (ih (retry + 1) (leaves call s))

/-- **The delays** are those of the policy, one after the other. -/
theorem delays_eq (p : RetryPolicy) (call : σ → Except Failure α × σ) (left retry : Nat) (s : σ) :
    (p.attempts call left retry s).delays =
      (List.range (p.attempts call left retry s).delays.length).map
        fun i => p.delay (retry + i) := by
  induction left generalizing retry s with
  | zero => rfl
  | succ left ih =>
    rw [attempts_succ]
    split
    · rfl
    · have rest := ih (retry + 1) (leaves call s)
      simp only [Nat.add_assoc, Nat.add_comm 1] at rest
      simp only [List.length_cons, List.range_succ_eq_map, List.map_cons, List.map_map]
      exact congrArg (p.delay retry :: ·) rest

/-- A call is made at least once, and not more often than the policy says. -/
theorem count_run (p : RetryPolicy) (call : σ → Except Failure α × σ) (s : σ) :
    0 < (p.run call s).count ∧ (p.run call s).count ≤ p.maxRetries + 1 := by
  have most : (List.range p.maxRetries).findIdx (fun i => settles (nth call s i)) ≤ _ :=
    List.findIdx_le_length
  rw [List.length_range, ← length_delays (p := p) p.maxRetries 0 s] at most
  exact ⟨Nat.succ_pos _, Nat.succ_le_succ most⟩

/-! ## The loop, act by act -/

/-- What is done while a call is retried. -/
inductive Act (α : Type)
  | attempt (outcome : Except Failure α)
  | sleep (d : Duration)
deriving Repr

/-- Attempts in a row, with these delays between them. -/
def acts (call : σ → Except Failure α × σ) : σ → List Duration → List (Act α)
  | s, [] => [.attempt (call s).1]
  | s, d :: ds => .attempt (call s).1 :: .sleep d :: acts call (leaves call s) ds

/-- The loop of attempts, with the number of the next retry in a word of 32 bits. There are no acts
of a loop in which that number overflows. -/
def loop (p : RetryPolicy) (most : UInt32) (call : σ → Except Failure α × σ) (retry : UInt32)
    (s : σ) : Option (List (Act α)) :=
  if _h : settles (call s).1 = false ∧ retry < most then
    if retry + 1 < retry then Option.none
    else (p.loop most call (retry + 1) (leaves call s)).map fun rest =>
      .attempt (call s).1 :: .sleep (p.delay retry.toNat) :: rest
  else some [.attempt (call s).1]
termination_by most.toNat - retry.toNat
decreasing_by
  have less := UInt32.lt_iff_toNat_lt.mp _h.2
  have bound := most.toNat_lt
  rw [UInt32.toNat_add]
  have one : (1 : UInt32).toNat = 1 := rfl
  omega

/-- **The loop** makes the attempts from a retry on, with their delays between them. By induction on
how many retries are left: none that can still be counted overflows. -/
theorem loop_eq_acts {most retry : UInt32} {left : Nat} (all : left + retry.toNat = most.toNat)
    (s : σ) : p.loop most call retry s =
      some (acts call s (p.attempts call left retry.toNat s).delays) := by
  induction left generalizing retry s with
  | zero =>
    have last : ¬retry < most := by
      rw [UInt32.lt_iff_toNat_lt]
      omega
    rw [loop, dif_neg fun h => last h.2, attempts]
    rfl
  | succ left ih =>
    have less : retry < most := by
      rw [UInt32.lt_iff_toNat_lt]
      omega
    have next : (retry + 1).toNat = retry.toNat + 1 := by
      have bound := most.toNat_lt
      rw [UInt32.toNat_add]
      exact Nat.mod_eq_of_lt (by have : (1 : UInt32).toNat = 1 := rfl; omega)
    have counted : ¬retry + 1 < retry := by
      rw [UInt32.lt_iff_toNat_lt, next]
      omega
    rw [loop, attempts_succ]
    cases h : settles (call s).1 with
    | true => rfl
    | false =>
      rw [dif_pos ⟨rfl, less⟩, if_neg counted, ih (by omega), next]
      rfl

/-! ## One run -/

/-- A run that follows a policy: attempt after attempt, until one settles the matter or there are no
more retries. -/
structure Follows (p : RetryPolicy) (call : σ → Except Failure α × σ) (s : σ)
    (a : Attempted σ α) : Prop where
  /-- The last attempt is the first that settles the matter, or the one behind the last retry. -/
  count : a.count = (List.range p.maxRetries).findIdx (fun i => settles (nth call s i)) + 1
  /-- It is the last: nothing is called any more, -/
  state : a.state = (leaves call)^[a.count] s
  /-- and it decides what comes back. -/
  outcome : a.outcome = nth call s (a.count - 1)
  /-- Each attempt before it may be made again. -/
  earlier : ∀ i, i + 1 < a.count → settles (nth call s i) = false
  last : settles a.outcome = true ∨ a.count = p.maxRetries + 1
  delays : a.delays = (List.range (a.count - 1)).map p.delay
  /-- A loop that counts its retries in a word does all this, and nothing else. -/
  acts : ∀ most : UInt32, p.maxRetries = most.toNat → p.loop most call 0 s =
    some (acts call s ((List.range (a.count - 1)).map p.delay))

/-- **Calls are retried as the policy says**, whatever the outcomes of the attempts are. -/
theorem run_follows (p : RetryPolicy) (call : σ → Except Failure α × σ) (s : σ) :
    p.Follows call s (p.run call s) := by
  have retries : (p.run call s).delays.length = _ := length_delays p.maxRetries 0 s
  have delays : (p.run call s).delays = (List.range (p.run call s).delays.length).map p.delay := by
    have shifted := delays_eq p call p.maxRetries 0 s
    simp only [Nat.zero_add] at shifted
    exact shifted
  have sums := run_spec p call s
  refine ⟨congrArg (· + 1) retries, sums.state, sums.outcome, fun i h => ?_, ?_, delays, ?_⟩
  · have before : i < (List.range p.maxRetries).findIdx fun i => settles (nth call s i) :=
      retries ▸ Nat.lt_of_succ_lt_succ h
    simpa using List.not_of_lt_findIdx before
  · have outcome : (p.run call s).outcome =
        nth call s ((List.range p.maxRetries).findIdx fun i => settles (nth call s i)) :=
      sums.outcome.trans (congrArg (nth call s) retries)
    rw [outcome]
    rcases Nat.lt_or_ge (p.run call s).delays.length p.maxRetries with less | all
    · have found : (List.range p.maxRetries).findIdx (fun i => settles (nth call s i)) <
          (List.range p.maxRetries).length := by rwa [List.length_range, ← retries]
      exact .inl (by simpa using List.findIdx_getElem (w := found))
    · exact .inr (Nat.le_antisymm (count_run p call s).2 (Nat.succ_le_succ all))
  · intro most words
    have all : p.maxRetries + (0 : UInt32).toNat = most.toNat := words
    exact (loop_eq_acts all s).trans (congrArg (some <| acts call s ·) delays)

/-- Calls whose outcomes are given in advance; the state is the number of those that were made. -/
def script (outcomes : List (Except Failure α)) (made : Nat) : Except Failure α × Nat :=
  (outcomes.getD made (.error .closed), made + 1)

/-- Two failures that may pass and one that will not: three attempts, two delays. -/
example :
    let a := default.run (script [.error .transport, .error (.ofStatus 14 "down"),
      .error (.ofStatus 3 "bad"), .ok ()]) 0
    a.outcome = .error (.status 3 "bad") ∧ a.state = 3 ∧
      a.delays = [.ofMillis 100, .ofMillis 200] :=
  ⟨rfl, rfl, by decide⟩

/-! ## Records of attempts -/

/-- The failures after which a call was retried, and what came back, with so many retries at most. -/
structure Settled (retries : Nat) (failures : List Failure) (outcome : Except Failure α) :
    Prop where
  few : failures.length ≤ retries
  passing : ∀ f ∈ failures, f.isRetryable = true
  last : settles outcome = true ∨ failures.length = retries

theorem settled_cons {retries : Nat} {failure : Failure} {failures : List Failure}
    {outcome : Except Failure α} (passing : failure.isRetryable = true)
    (h : Settled retries failures outcome) : Settled (retries + 1) (failure :: failures) outcome where
  few := Nat.succ_le_succ h.few
  passing := List.forall_mem_cons.mpr ⟨passing, h.passing⟩
  last := h.last.imp_right (congrArg (· + 1))

variable {record : σ × List β → Except Failure α × (σ × List β)} {entry : Except Failure α → β}

theorem record_of_attempts (records : ∀ s, (record s).2.2 = s.2 ++ [entry (record s).1])
    (left retry : Nat) (s : σ × List β) :
    ∃ failures, Settled left failures (p.attempts record left retry s).outcome ∧
      (p.attempts record left retry s).state.2 = s.2 ++ failures.map (fun f => entry (.error f)) ++
        [entry (p.attempts record left retry s).outcome] := by
  induction left generalizing retry s with
  | zero => exact ⟨[], ⟨Nat.le_refl 0, nofun, .inr rfl⟩, by simpa [attempts] using records s⟩
  | succ left ih =>
    rw [attempts_succ]
    cases outcome : (record s).1 with
    | ok reply =>
      exact ⟨[], ⟨Nat.zero_le _, nofun, .inl rfl⟩, by simpa [settles, leaves, outcome] using records s⟩
    | error failure =>
      cases passing : failure.isRetryable with
      | false =>
        have final : settles (.error failure : Except Failure α) = true := by simp [settles, passing]
        rw [if_pos final]
        exact ⟨[], ⟨Nat.zero_le _, nofun, .inl final⟩, by simpa [leaves, outcome] using records s⟩
      | true =>
        have open' : ¬settles (.error failure : Except Failure α) = true := by simp [settles, passing]
        rw [if_neg open']
        obtain ⟨failures, settled, kept⟩ := ih (retry + 1) (leaves record s)
        refine ⟨failure :: failures, settled_cons passing settled, ?_⟩
        have one : (leaves record s).2 = s.2 ++ [entry (.error failure)] := outcome ▸ records s
        rw [one] at kept
        simpa using kept

/-- **Whoever keeps a record** of the attempts has one entry for each: the failures that may pass, and
what came back. -/
theorem record_of_run (record : σ × List β → Except Failure α × (σ × List β))
    (entry : Except Failure α → β) (records : ∀ s, (record s).2.2 = s.2 ++ [entry (record s).1])
    (p : RetryPolicy) (s : σ × List β) :
    ∃ failures, Settled p.maxRetries failures (p.run record s).outcome ∧
      (p.run record s).state.2 = s.2 ++ failures.map (fun f => entry (.error f)) ++
        [entry (p.run record s).outcome] :=
  record_of_attempts records p.maxRetries 0 s

end RetryPolicy

end ChangeRelay.Client
