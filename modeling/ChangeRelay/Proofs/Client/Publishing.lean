import ChangeRelay.Proofs.Batching.Batches
import ChangeRelay.Proofs.Client.Requests

/-!
# What becomes of events that are sent in batches

A publisher is given events one by one, at any time, and its task puts them together to batches and
sends these. Whatever the timing and whatever the server answers, the books of the publisher are
kept: its requests carry what it was given, in order and nothing twice, but for what is still on its
way, and its report counts them. A publisher is an `AdaptiveSourceDispatcher`, and its report what
`close` gives.

The task breaks down with its batcher, which happens only if a batch is to be longer than a block of
memory. What was on its way is lost then, and whoever closes the publisher gets no report.

* **`accounts_of_play`**: the books are kept, step by step.
* **`driven_of_play`**: what happens to a publisher happens to its batcher.
* **`result_of_closed`**: a publisher that is given nothing more comes to its end, at whatever times
  its task takes its steps.
* **`conserves_of_play`**: at the end nothing is on its way, and the report accounts for all events.
* **`event_lost`**: an event is lost without a report.
* **`sendAdaptively_play`**: events that are all there from the beginning are sent in this way.
-/

namespace ChangeRelay.Client

variable {σ : Type}

namespace Publisher

/-- The event that goes into the channel. -/
def Label.event? : Label → Option Event
  | .send e => some e
  | _ => none

/-- The events that go into the channel. -/
def sent (ls : List Label) : List Event := ls.filterMap Label.event?

/-- The events that are being sent. -/
def Phase.events : Phase → List Event
  | .sending events => events
  | _ => []

/-- Lets one thing happen after the other, if they can. -/
def play (c : Settings) (server : Server σ) : List Label → Publisher σ → Option (Publisher σ)
  | [], p => some p
  | l :: ls, p => (p.step c server l).bind (play c server ls)

/-- The events that are on their way, the oldest first; if the task broke down, they are lost. -/
def waiting (p : Publisher σ) : List Event := p.phase.events ++ p.batcher.items

/-! ## What a step of the task does -/

section Steps

variable {c : Settings} {server : Server σ} {p q : Publisher σ} {now : Nat}

/-- `q` is what a step of the task makes of `p`. -/
inductive Works (c : Settings) (server : Server σ) (p : Publisher σ) (now : Nat) :
    Publisher σ → Prop
  /-- It takes an event from the channel. -/
  | gathers {batcher : Batching.Batcher Event} (at_ : p.phase = .gathering)
      (looks : p.batcher.Looks now batcher none) : Works c server p now { p with batcher }
  /-- It has a batch. -/
  | collects {batcher : Batching.Batcher Event} {events : List Event} (at_ : p.phase = .gathering)
      (looks : p.batcher.Looks now batcher (some (.batch events))) :
      Works c server p now { p with batcher, phase := .sending events }
  /-- There are no more batches. -/
  | stops {batcher : Batching.Batcher Event} (at_ : p.phase = .gathering)
      (looks : p.batcher.Looks now batcher (some .ended)) :
      Works c server p now { p with batcher, phase := .done }
  /-- Its batcher breaks down. -/
  | breaks {batcher : Batching.Batcher Event} (at_ : p.phase = .gathering)
      (looks : p.batcher.Looks now batcher (some .failed)) :
      Works c server p now { p with batcher, phase := .broken }
  /-- It sends its batch. -/
  | sends {events : List Event} (at_ : p.phase = .sending events) :
      Works c server p now (p.deliver c server events)

theorem works_of_work? (h : p.work? c server now = some q) : Works c server p now q := by
  have looks := p.batcher.looks now
  unfold work? at h
  split at h
  · next at_ =>
    split at h
    · next batcher looked =>
      rw [looked] at looks
      exact Option.some.inj h ▸ .gathers at_ looks
    · next batcher events looked =>
      rw [looked] at looks
      exact Option.some.inj h ▸ .collects at_ looks
    · next batcher looked =>
      rw [looked] at looks
      exact Option.some.inj h ▸ .stops at_ looks
    · next batcher looked =>
      rw [looked] at looks
      exact Option.some.inj h ▸ .breaks at_ looks
    · nomatch h
  · next events at_ => exact Option.some.inj h ▸ .sends at_
  all_goals nomatch h

/-- With a closed channel the task does not have to wait, but for its end. -/
theorem work?_of_closed (c : Settings) (server : Server σ) (closed : p.batcher.closed = true)
    (busy : p.result? = none) (now : Nat) : ∃ q, p.work? c server now = some q := by
  have settled := (p.batcher.looks now).settled closed
  unfold result? at busy
  unfold work?
  split
  · split
    · exact ⟨_, rfl⟩
    · exact ⟨_, rfl⟩
    · exact ⟨_, rfl⟩
    · exact ⟨_, rfl⟩
    · next looked => exact absurd (congrArg Prod.snd looked) settled
  · exact ⟨_, rfl⟩
  · next ended => simp [ended] at busy
  · next broken => simp [broken] at busy

theorem Works.closed_eq (works : Works c server p now q) : q.batcher.closed = p.batcher.closed := by
  cases works with
  | gathers at_ looks | collects at_ looks | stops at_ looks | breaks at_ looks =>
    exact looks.closed_eq
  | sends => rfl

/-- Each step brings the task nearer to its end. -/
theorem Works.stepsLeft_lt (works : Works c server p now q) : q.stepsLeft < p.stepsLeft := by
  cases works with
  | gathers at_ looks =>
    cases looks with
    | begins idle holds =>
      simp only [stepsLeft, Batching.Stage.batch?, at_, idle, holds, List.length_cons,
        Option.isSome, Bool.false_eq_true, if_true, if_false]
      omega
    | takes has open_ holds => simp [stepsLeft, Batching.Stage.batch?, at_, has, holds]
  | collects at_ looks =>
    cases looks with
    | ends has due =>
      simp [stepsLeft, Batching.Stage.batch?, Batching.Batcher.finish, at_, has]
  | stops at_ looks =>
    cases looks with
    | stops idle empty closed => simp [stepsLeft, at_]
  | breaks at_ looks =>
    cases looks with
    | breaks idle holds =>
      simp only [stepsLeft, Batching.Stage.batch?, at_, idle, holds, List.length_cons,
        Option.isSome, Bool.false_eq_true, if_false]
      omega
    | broken was => simp [stepsLeft, at_]
  | sends at_ =>
    simp only [stepsLeft, deliver, at_]
    exact Nat.lt_succ_self _

/-- **A publisher that is given nothing more** comes to its end, at whatever times its task takes
its steps. -/
theorem result_of_closed (closed : p.batcher.closed = true) {times : List Nat}
    (enough : p.stepsLeft ≤ times.length) :
    ∃ result, (p.workAt c server times).result? = some result := by
  induction times generalizing p with
  | nil =>
    have none : p.stepsLeft = 0 := Nat.le_zero.mp enough
    change ∃ result, p.result? = some result
    unfold result?
    cases at_ : p.phase with
    | done => exact ⟨_, rfl⟩
    | broken => exact ⟨_, rfl⟩
    | gathering | sending => simp [stepsLeft, at_] at none
  | cons now times ih =>
    unfold workAt
    split
    · next q h =>
      have works := works_of_work? h
      have nearer := works.stepsLeft_lt
      rw [List.length_cons] at enough
      exact ih (works.closed_eq.trans closed) (by omega)
    · next h =>
      refine Option.ne_none_iff_exists'.mp fun busy => ?_
      obtain ⟨q, h'⟩ := work?_of_closed c server closed busy now
      exact absurd (h.symm.trans h') nofun

/-- The steps that a task takes at some times are among the things that can happen. -/
theorem play_workAt (c : Settings) (server : Server σ) (times : List Nat) (p : Publisher σ) :
    ∃ n, p.play c server ((times.take n).map .work) = some (p.workAt c server times) := by
  induction times generalizing p with
  | nil => exact ⟨0, rfl⟩
  | cons now times ih =>
    unfold workAt
    split
    · next q h =>
      obtain ⟨n, plays⟩ := ih q
      refine ⟨n + 1, ?_⟩
      rw [List.take_succ_cons, List.map_cons, play, step, h]
      exact plays
    · exact ⟨0, rfl⟩

/-- An event that goes into the channel finds it open, read by the task and not full. -/
theorem sends_of_step {e : Event} (h : p.step c server (.send e) = some q) :
    p.batcher.closed = false ∧ p.phase ≠ .broken ∧ p.batcher.queue.length < p.capacity ∧
      q = { p with batcher := p.batcher.send [e] } := by
  obtain ⟨r, sent, got⟩ := Option.bind_eq_some_iff.mp h
  obtain ⟨opened, sent⟩ := Option.ite_none_left_eq_some.mp sent
  split at sent
  · obtain rfl := Option.some.inj sent
    nomatch got
  · next whole =>
    obtain ⟨room, sent⟩ := Option.ite_none_left_eq_some.mp sent
    obtain rfl := Option.some.inj sent
    exact ⟨Bool.eq_false_iff.mpr opened, whole, Nat.lt_of_not_le room, (Option.some.inj got).symm⟩

theorem closes_of_step (h : p.step c server .close = some q) :
    p.batcher.closed = false ∧ q = { p with batcher := p.batcher.close } := by
  obtain ⟨opened, h⟩ := Option.ite_none_left_eq_some.mp h
  exact ⟨Bool.eq_false_iff.mpr opened, (Option.some.inj h).symm⟩

theorem play_append (ls ls' : List Label) (p : Publisher σ) :
    p.play c server (ls ++ ls') = (p.play c server ls).bind (play c server ls') := by
  induction ls generalizing p with
  | nil => rfl
  | cons l ls ih =>
    rw [List.cons_append, play, play, Option.bind_assoc]
    exact congrArg _ (funext ih)

end Steps

/-! ## The batcher of a publisher -/

section Driving

variable {c : Settings} {server : Server σ} {p q : Publisher σ} {now : Nat}
variable {batching : Batching.Settings} {width : Nat}

/-- What has happened to a publisher has happened to its batcher, and the task is broken if the
batcher is. -/
structure Driven (batching : Batching.Settings) (width : Nat) (p : Publisher σ) : Prop where
  course : ∃ ms, Batching.Batcher.Steps p.capacity (.ofSettings batching width) ms p.batcher
  broken : p.batcher.isBroken = true ↔ p.phase = .broken

theorem driven_start (batching : Batching.Settings) (width capacity : Nat) (s : σ) :
    (start batching width capacity s).Driven batching width where
  course := ⟨[], .stop⟩
  broken := by simp [start, Batching.Batcher.isBroken, Batching.Batcher.ofSettings]

/-- A look of the task is a look of its batcher. -/
theorem Driven.look (driven : p.Driven batching width) {batcher : Batching.Batcher Event}
    {r? : Option (Batching.Progress Event)} (looked : p.batcher.look now = (batcher, r?))
    {phase : Phase} (agrees : r? = some .failed ↔ phase = .broken) :
    ({ p with batcher, phase } : Publisher σ).Driven batching width := by
  obtain ⟨⟨ms, steps⟩, -⟩ := driven
  have looks := p.batcher.looks now
  rw [looked] at looks
  exact ⟨⟨_, steps.next (l := .look now) (congrArg some looked)⟩, looks.isBroken_iff.trans agrees⟩

theorem Driven.work (driven : p.Driven batching width) (h : p.work? c server now = some q) :
    q.Driven batching width := by
  unfold work? at h
  split at h
  · next at_ =>
    split at h
    · next batcher looked =>
      have same : ({ p with batcher, phase := p.phase } : Publisher σ).Driven batching width :=
        driven.look looked (by simp [at_])
      exact Option.some.inj h ▸ same
    · next batcher events looked => exact Option.some.inj h ▸ driven.look looked (by simp)
    · next batcher looked => exact Option.some.inj h ▸ driven.look looked (by simp)
    · next batcher looked => exact Option.some.inj h ▸ driven.look looked (by simp)
    · nomatch h
  · next events at_ =>
    obtain rfl := Option.some.inj h
    exact ⟨driven.course, by simp [deliver, driven.broken, at_]⟩
  all_goals nomatch h

/-- **What a step preserves.** -/
theorem Driven.step (driven : p.Driven batching width) {l : Label}
    (h : p.step c server l = some q) : q.Driven batching width := by
  obtain ⟨⟨ms, steps⟩, broken⟩ := driven
  cases l with
  | send e =>
    obtain ⟨opened, whole, room, rfl⟩ := sends_of_step h
    have intact : p.batcher.isBroken = false := Bool.eq_false_iff.mpr (mt broken.mp whole)
    refine ⟨⟨_, steps.next (l := .send e) (if_neg ?_)⟩, broken⟩
    simp [opened, intact, room]
  | close =>
    obtain ⟨opened, rfl⟩ := closes_of_step h
    refine ⟨⟨_, steps.next (l := .close) (if_neg ?_)⟩, broken⟩
    simp [opened]
  | work now => exact Driven.work ⟨⟨ms, steps⟩, broken⟩ h

/-- **What happens to a publisher** happens to its batcher. -/
theorem driven_of_play (driven : p.Driven batching width) {ls : List Label}
    (plays : p.play c server ls = some q) : q.Driven batching width := by
  induction ls generalizing p with
  | nil => exact Option.some.inj plays ▸ driven
  | cons l ls ih =>
    obtain ⟨p', h, rest⟩ := Option.bind_eq_some_iff.mp plays
    exact ih (driven.step h) rest

/-- The task does not break down if there can be memory for every batch. -/
theorem Driven.whole (driven : p.Driven batching width) (fits : batching.Fits width) :
    p.phase ≠ .broken := by
  obtain ⟨⟨ms, steps⟩, broken⟩ := driven
  intro was
  exact absurd ((steps.sound.whole fits).symm.trans (broken.mpr was)) Bool.false_ne_true

/-- **A task that broke down** stays as it is, and is sent nothing. -/
theorem silent_of_broken (was : p.phase = .broken) {ls : List Label}
    (plays : p.play c server ls = some q) :
    q.phase = .broken ∧ q.server = p.server ∧ sent ls = [] := by
  induction ls generalizing p with
  | nil =>
    obtain rfl := Option.some.inj plays
    exact ⟨was, rfl, rfl⟩
  | cons l ls ih =>
    obtain ⟨p', h, rest⟩ := Option.bind_eq_some_iff.mp plays
    cases l with
    | send e => exact absurd was (sends_of_step h).2.1
    | close =>
      obtain ⟨-, rfl⟩ := closes_of_step h
      exact ih (p := { p with batcher := p.batcher.close }) was rest
    | work now =>
      have none : p.work? c server now = none := by simp [work?, was]
      exact absurd (none.symm.trans h) nofun

end Driving

/-! ## The books -/

section Books

variable {c : Settings} {server : Server σ} {server' : Server (σ × List Seen)}
variable {p q : Publisher (σ × List Seen)} {now : Nat}
variable {given : List Event} {rs : List Request}

/-- `rs` are the requests of a publisher that was given these events. -/
structure Accounts (c : Settings) (given : List Event) (rs : List Request)
    (p : Publisher (σ × List Seen)) : Prop where
  proper : ∀ r ∈ rs, r.Proper c
  /-- The server has seen these requests, and nothing else. -/
  seen : p.server.2 = rs.flatMap (Request.seen c)
  /-- What they do not carry is on its way. -/
  given : given = rs.flatMap Request.events ++ p.waiting
  totals : p.report.Totals rs
  /-- A batch that is about to be sent has an event. -/
  nonempty : ∀ events, p.phase = .sending events → events ≠ []
  /-- At the end nothing is on its way, and nothing more will come. -/
  ended : p.phase = .done → p.batcher.closed = true ∧ p.waiting = []

theorem accounts_start (batching : Batching.Settings) (width capacity : Nat) (s : σ) :
    (start batching width capacity (s, ([] : List Seen))).Accounts c [] [] where
  proper := nofun
  seen := rfl
  given := rfl
  totals := Report.totals_nil
  nonempty := nofun
  ended := nofun

/-- An event that goes into the channel is on its way. -/
theorem Accounts.send (books : p.Accounts c given rs) {e : Event}
    (h : p.step c server' (.send e) = some q) : q.Accounts c (given ++ [e]) rs := by
  obtain ⟨opened, -, -, rfl⟩ := sends_of_step h
  refine ⟨books.proper, books.seen, ?_, books.totals, books.nonempty, ?_⟩
  · rw [books.given]
    simp [waiting, Batching.Batcher.items, Batching.Batcher.send]
  · intro ended
    have closed := (books.ended ended).1
    exact absurd (opened.symm.trans closed) Bool.false_ne_true

/-- What sends nothing and loses nothing keeps the books. -/
theorem Accounts.keep (books : p.Accounts c given rs) (server : q.server = p.server)
    (report : q.report = p.report) (waiting : q.waiting = p.waiting)
    (nonempty : ∀ events, q.phase = .sending events → events ≠ [])
    (ended : q.phase = .done → q.batcher.closed = true ∧ q.waiting = []) :
    q.Accounts c given rs where
  proper := books.proper
  seen := server ▸ books.seen
  given := waiting ▸ books.given
  totals := report ▸ books.totals
  nonempty := nonempty
  ended := ended

theorem Accounts.close (books : p.Accounts c given rs) (h : p.step c server' .close = some q) :
    q.Accounts c given rs := by
  obtain ⟨-, rfl⟩ := closes_of_step h
  refine books.keep rfl rfl rfl books.nonempty ?_
  intro ended
  exact ⟨rfl, (books.ended ended).2⟩

/-- **A batch that is sent** is a request more. -/
theorem Accounts.deliver (honest : server.Honest) (books : p.Accounts c given rs)
    {events : List Event} (at_ : p.phase = .sending events) :
    ∃ r, (p.deliver c server.watched events).Accounts c given (rs ++ [r]) := by
  obtain ⟨r, proper, rfl, outcome, seen⟩ :=
    sends_request c honest (books.nonempty events at_) p.server
  refine ⟨r, ?_, ?_, ?_, ?_, nofun, nofun⟩
  · intro r' mem
    rcases List.mem_append.mp mem with old | new
    · exact books.proper r' old
    · exact List.mem_singleton.mp new ▸ proper
  · rw [List.flatMap_append, List.flatMap_singleton, ← books.seen]
    exact seen
  · rw [books.given]
    simp [waiting, Publisher.deliver, Phase.events, at_]
  · have totals := books.totals.add proper
    rw [← outcome] at totals
    exact totals

/-- **A step of the task** makes a request, or none. -/
theorem Accounts.work (honest : server.Honest) (books : p.Accounts c given rs)
    (works : Works c server.watched p now q) : ∃ rs', q.Accounts c given rs' := by
  cases works with
  | @gathers batcher at_ looks =>
    have same : batcher.items = p.batcher.items := looks.items_eq
    refine ⟨rs, books.keep rfl rfl ?_ ?_ ?_⟩
    · simp [waiting, same]
    · exact books.nonempty
    · intro ended
      exact absurd (at_.symm.trans ended) (by simp)
  | @collects batcher events at_ looks =>
    have same : events ++ batcher.items = p.batcher.items := looks.items_eq
    refine ⟨rs, books.keep rfl rfl ?_ ?_ ?_⟩
    · simp [waiting, Phase.events, at_, same]
    · intro events' at_'
      exact Phase.sending.inj at_' ▸ looks.ne_nil
    · intro ended
      cases ended
  | stops at_ looks =>
    cases looks with
    | stops idle empty closed =>
      have nothing : p.batcher.items = [] := by
        simp [Batching.Batcher.items, Batching.Stage.items, idle, empty]
      refine ⟨rs, books.keep rfl rfl ?_ ?_ ?_⟩
      · simp [waiting, Phase.events, at_]
      · intro events' at_'
        cases at_'
      · exact fun _ => ⟨closed, by simp [waiting, Phase.events, nothing]⟩
  | @breaks batcher at_ looks =>
    have same : batcher.items = p.batcher.items := looks.items_eq
    refine ⟨rs, books.keep rfl rfl ?_ ?_ ?_⟩
    · simp [waiting, Phase.events, at_, same]
    · intro events' at_'
      cases at_'
    · intro ended
      cases ended
  | sends at_ =>
    obtain ⟨r, books⟩ := books.deliver honest at_
    exact ⟨rs ++ [r], books⟩

/-- **The books are kept**, whatever happens. -/
theorem accounts_of_play (honest : server.Honest) (books : p.Accounts c given rs) {ls : List Label}
    (plays : p.play c server.watched ls = some q) : ∃ rs', q.Accounts c (given ++ sent ls) rs' := by
  induction ls generalizing p given rs with
  | nil =>
    obtain rfl := Option.some.inj plays
    exact ⟨rs, by simpa [sent] using books⟩
  | cons l ls ih =>
    obtain ⟨p', h, rest⟩ := Option.bind_eq_some_iff.mp plays
    cases l with
    | send e =>
      obtain ⟨rs', books⟩ := ih (books.send h) rest
      refine ⟨rs', ?_⟩
      rwa [List.append_assoc] at books
    | close => exact ih (books.close h) rest
    | work now =>
      obtain ⟨rs', books⟩ := books.work honest (works_of_work? h)
      exact ih books rest

/-- What a publisher owes, after these things have happened to it, to whoever gave it events that
take `width` bytes. -/
structure Conserves (c : Settings) (batching : Batching.Settings) (width : Nat)
    (server : Server (σ × List Seen)) (ls : List Label) (p : Publisher (σ × List Seen)) : Prop where
  /-- Its books are kept, and if it reports, then its requests carry all of the events, which its
  report accounts for. -/
  books : ∃ rs, p.Accounts c (sent ls) rs ∧ ∀ report, p.result? = some (.ok report) →
    rs.flatMap Request.events = sent ls ∧ report.Balances rs (sent ls).length
  /-- After it was closed it comes to its end, at whatever times its task takes its steps. -/
  ends : p.batcher.closed = true → ∀ times : List Nat, p.stepsLeft ≤ times.length →
    ∃ n q result, p.play c server ((times.take n).map .work) = some q ∧ q.result? = some result ∧
      (batching.Fits width → ∃ report, result = .ok report)
  /-- It does not break down if there can be memory for every batch. -/
  whole : batching.Fits width → p.result? ≠ some (.error .closed) ∧
    ∀ e, p.send? e ≠ some (.error .closed)
  /-- If it broke down it has lost an event at least, and it sends nothing more. -/
  lost : p.result? = some (.error .closed) → p.batcher.items ≠ [] ∧
    ∀ ls' q, p.play c server ls' = some q → q.result? = p.result? ∧ q.server = p.server ∧
      sent ls' = []

theorem result?_ok {report : Report} (h : p.result? = some (.ok report)) :
    p.phase = .done ∧ p.report = report := by
  unfold result? at h
  split at h
  · next done => exact ⟨done, Except.ok.inj (Option.some.inj h)⟩
  · exact absurd (Option.some.inj h) nofun
  · nomatch h
  · nomatch h

theorem result?_error {failure : Failure} (h : p.result? = some (.error failure)) :
    p.phase = .broken := by
  unfold result? at h
  split at h
  · exact absurd (Option.some.inj h) nofun
  · next broken => exact broken
  · nomatch h
  · nomatch h

/-- **A publisher loses nothing that it does not report**, whatever the timing and whatever the
server answers, unless there is no memory for a batch; then it reports nothing. -/
theorem conserves_of_play (c : Settings) (batching : Batching.Settings) (width capacity : Nat)
    {server : Server σ} (honest : server.Honest) (s : σ) {ls : List Label}
    (plays : (start batching width capacity (s, [])).play c server.watched ls = some p) :
    p.Conserves c batching width server.watched ls := by
  have driven := driven_of_play (driven_start batching width capacity (s, [])) plays
  obtain ⟨rs, books⟩ :=
    accounts_of_play honest (accounts_start (c := c) batching width capacity s) plays
  rw [List.nil_append] at books
  constructor
  · refine ⟨rs, books, fun report reported => ?_⟩
    obtain ⟨done, rfl⟩ := result?_ok reported
    have all : sent ls = rs.flatMap Request.events := by
      rw [books.given, (books.ended done).2, List.append_nil]
    rw [all]
    exact ⟨rfl, books.totals.balances books.proper⟩
  · intro closed times enough
    obtain ⟨n, plays'⟩ := play_workAt c server.watched times p
    obtain ⟨result, is⟩ : ∃ result, (p.workAt c server.watched times).result? = some result :=
      result_of_closed closed enough
    refine ⟨n, _, result, plays', is, fun fits => ?_⟩
    cases result with
    | ok report => exact ⟨report, rfl⟩
    | error _ => exact absurd (result?_error is) ((driven_of_play driven plays').whole fits)
  · intro fits
    have whole := driven.whole fits
    refine ⟨fun h => whole (result?_error h), fun e h => ?_⟩
    obtain ⟨-, h⟩ := Option.ite_none_left_eq_some.mp h
    rw [if_neg whole] at h
    obtain ⟨-, h⟩ := Option.ite_none_left_eq_some.mp h
    exact absurd (Option.some.inj h) nofun
  · intro h
    have was := result?_error h
    obtain ⟨x, stage⟩ := Batching.Batcher.isBroken_iff.mp (driven.broken.mpr was)
    refine ⟨by simp [Batching.Batcher.items, Batching.Stage.items, stage], fun ls' q plays' => ?_⟩
    obtain ⟨still, server, none⟩ := silent_of_broken was plays'
    exact ⟨by simp [result?, was, still], server, none⟩

end Books

/-! ### A sample: a server that accepts one event of a batch, if it is not busy -/

namespace Picky

/-- What the attempt of this number is answered with. -/
def answer : Nat → List Wire.Event → Except Failure DispatchReply
  | 0, _ => .error (.status Failure.unavailable "busy")
  | 2, _ => .error (.status 3 "refused")
  | _, [] => .ok ⟨true, "", 0⟩
  | _, [_] => .ok ⟨true, "", 1⟩
  | _, _ :: _ :: _ => .ok ⟨false, "", 1⟩

def server : Server Nat where
  connect n := (.ok (), n)
  single _ n := (.error .transport, n)
  batch b n := (answer n b.events, n + 1)
  invocation _ _ n := (.error .transport, n)

theorem honest : server.Honest := by
  intro b n
  change Fits b.events.length (answer n b.events)
  generalize b.events = events
  unfold answer
  split <;> simp [Fits]

def batching : Batching.Settings :=
  { Batching.Settings.default with minSize := 2, maxSize := 2, adaptive := false }

def client : Settings := .ofConnection (.ofHost "localhost" 50051)

def send (n : UInt64) : Label := .send { (default : Event) with sequence := n }

/-- Five events through a channel that holds one. -/
def labels : List Label :=
  [send 1, .work 0, send 2, .work 0, .work 0, send 3, .work 0, .work 0, send 4, .work 5, .work 5,
    .work 7, send 5, .close, .work 8, .work 8, .work 8, .work 8]

end Picky

/-- The sample: the first batch is attempted twice and one of its events refused, the second batch
is lost, and the third is an event that is accepted. -/
theorem conserves_sample : Picky.server.Honest ∧ Picky.batching.Fits 192 ∧
    ∃ p : Publisher (Nat × List Seen),
      (start Picky.batching 192 1 (0, [])).play Picky.client Picky.server.watched Picky.labels =
        some p ∧
      p.result? = some (.ok ⟨2, 1, 2, 1⟩) ∧ p.server.2.length = 4 ∧
      (sent Picky.labels).length = 5 ∧
      p.Conserves Picky.client Picky.batching 192 Picky.server.watched Picky.labels := by
  have played : ((start Picky.batching 192 1 (0, [])).play Picky.client Picky.server.watched
      Picky.labels).map (fun p => (p.phase, p.report, p.server.2.length)) =
      some (.done, ⟨2, 1, 2, 1⟩, 4) := by
    decide +kernel
  obtain ⟨p, plays, is⟩ := Option.map_eq_some_iff.mp played
  obtain ⟨done, is⟩ := Prod.mk.inj is
  obtain ⟨report, seen⟩ := Prod.mk.inj is
  have conserves :=
    conserves_of_play Picky.client Picky.batching 192 1 Picky.honest 0 plays
  exact ⟨Picky.honest, by decide, p, plays, by simp [result?, done, report], seen, rfl, conserves⟩

/-- **An event can be lost without a report**: it was sent, the publisher is closed, and its task
comes to its end, but no batch reaches the server. -/
theorem event_lost : Batching.Batcher.vast.Doubles ∧ Picky.server.Honest ∧
    ∃ p : Publisher (Nat × List Seen),
      (start Batching.Batcher.vast 192 1 (0, [])).play Picky.client Picky.server.watched
        [Picky.send 1, .close, .work 0] = some p ∧
      p.result? = some (.error .closed) ∧ p.server.2 = [] ∧
      (sent [Picky.send 1, .close, .work 0]).length = 1 := by
  have played : ((start Batching.Batcher.vast 192 1 (0, [])).play Picky.client Picky.server.watched
      [Picky.send 1, .close, .work 0]).map (fun p => (p.phase, p.server.2.length)) =
      some (.broken, 0) := by
    decide +kernel
  obtain ⟨p, plays, is⟩ := Option.map_eq_some_iff.mp played
  obtain ⟨broken, unseen⟩ := Prod.mk.inj is
  exact ⟨by decide, Picky.honest, p, plays, by simp [result?, broken],
    List.eq_nil_of_length_eq_zero unseen, rfl⟩

/-! ## Events that are all there from the beginning -/

section AtOnce

variable {c : Settings} {server : Server σ}

theorem play_send (events : List Event) (p : Publisher σ) (opened : p.batcher.closed = false)
    (whole : p.phase ≠ .broken) (room : p.batcher.queue.length + events.length ≤ p.capacity) :
    p.play c server (events.map .send) = some { p with batcher := p.batcher.send events } := by
  induction events generalizing p with
  | nil => simp [play, Batching.Batcher.send]
  | cons e es ih =>
    rw [List.length_cons] at room
    have fits : p.step c server (.send e) = some { p with batcher := p.batcher.send [e] } := by
      have roomy : ¬p.capacity ≤ p.batcher.queue.length := by omega
      simp [step, send?, opened, whole, roomy, Except.toOption]
    rw [List.map_cons, play, fits, Option.bind_some, ih]
    · simp [Batching.Batcher.send]
    · exact opened
    · exact whole
    · simp [Batching.Batcher.send]
      omega

theorem sent_append (ls ls' : List Label) : sent (ls ++ ls') = sent ls ++ sent ls' :=
  List.filterMap_append

theorem sent_send (events : List Event) : sent (events.map .send) = events := by
  induction events with
  | nil => rfl
  | cons e es ih => exact congrArg (e :: ·) ih

theorem sent_work (times : List Nat) : sent (times.map .work) = [] := by
  induction times with
  | nil => rfl
  | cons now times ih => exact ih

/-- **Events that are all there from the beginning** are sent as by a publisher that is given all of
them, is closed, and then works to its end. -/
theorem sendAdaptively_play (c : Settings) (batching : Batching.Settings) (width : Nat)
    (server : Server σ) (events : List Event) (s : σ) :
    ∃ ls p result, sent ls = events ∧
      (start batching width events.length s).play c server ls = some p ∧
      p.result? = some result ∧
      sendAdaptively c batching width server events s = (some result, p.server) := by
  let p₀ : Publisher σ := start batching width events.length s
  let p : Publisher σ := { p₀ with batcher := (p₀.batcher.send events).close }
  let times : List Nat := .replicate p.stepsLeft 0
  obtain ⟨n, works⟩ := play_workAt c server times p
  have gives : p₀.play c server (events.map .send) =
      some { p₀ with batcher := p₀.batcher.send events } := by
    refine play_send events p₀ rfl nofun ?_
    exact Nat.le_trans (Nat.le_of_eq (Nat.zero_add _)) (Nat.le_max_left _ _)
  have enough : p.stepsLeft ≤ times.length := by simp [times]
  obtain ⟨result, is⟩ : ∃ result, (p.workAt c server times).result? = some result :=
    result_of_closed rfl enough
  refine ⟨events.map .send ++ .close :: (times.take n).map .work, p.workAt c server times, result,
    ?_, ?_, is, Prod.ext is rfl⟩
  · rw [sent_append, sent_send]
    exact (congrArg (events ++ ·) (sent_work _)).trans (List.append_nil events)
  · rw [play_append, gives]
    exact works

end AtOnce

end Publisher

end ChangeRelay.Client
