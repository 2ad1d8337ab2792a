import ChangeRelay.Proofs.Batching.Course

/-!
# What comes out of a batcher

The batches that come out of a batcher are what was sent, cut into pieces, whatever the timing: each
has an item and is no larger than its target, and it is smaller only if its wait is over or nothing
more will come. Once its wait is over a batch ends after the looks that it takes to fill it. Each is
what one `next_batch` of an `AdaptiveBatcher` returns.

This goes on for as long as there can be memory for the batches. A batch that is to be longer than a
block of memory breaks the batcher, and its first item is lost together with what the channel holds.

The largest batch is as large as the largest target, which is the smallest size if the two sizes are
the wrong way round.

* **`delivers_of_steps`**: what is owed to whoever sends items.
* **`item_lost`**: an item is lost that is to begin a batch of `2 ^ 62`.
* **`largest_iff`**: when batches keep to the largest size.
* **`above_largest`**: a batch of seven with a largest size of five.
-/

namespace ChangeRelay

/-! ## Before anything is measured -/

theorem Double.roundDiv_zero (den : Nat) : Double.roundDiv 0 den = 0 := by
  have half : 2 * (0 % den) < den ∨ 2 * (0 % den) = den ∧ 0 / den % 2 = 0 := by
    rw [Nat.zero_mod, Nat.zero_div]
    omega
  exact (if_pos half).trans (Nat.zero_div den)

theorem Double.ofRatio_zero (den : Nat) : Double.ofRatio 0 den = .zero := by
  have magnitude : Double.nearestMagnitude (0 <<< 1074) den = 0 := by
    simp [Double.nearestMagnitude, Double.roundDiv_zero]
  rw [Double.ofRatio, magnitude]
  rfl

/-- Nothing over any time is no rate at all. -/
theorem Batching.Monitor.level_ofWindow (window : Duration) (now : Nat) :
    (Monitor.ofWindow window).level now = .idle := by
  have nothing : (Double.ofNat 0).units = 0 := by decide +kernel
  have rate : (Monitor.ofWindow window).rate now = .zero := by
    change Double.ofRatio (Double.ofNat 0).units _ = .zero
    rw [nothing, Double.ofRatio_zero]
  rw [Monitor.level, rate]
  decide +kernel

namespace Batching.Batcher

variable {α : Type} {s : Settings} {width capacity now : Nat} {b b' : Batcher α}
variable {ms : List (Moment α)}

/-! ## Moments of a history -/

/-- What came before a moment, the step at it, and what came after it. -/
theorem Steps.split {pre post : List (Moment α)} {m : Moment α} (steps : Steps capacity b ms b')
    (h : ms = pre ++ m :: post) : Steps capacity b pre m.before ∧
      ∃ b₁, m.before.step capacity m.label = some (b₁, m.result?) ∧ Steps capacity b₁ post b' := by
  induction steps generalizing post with
  | stop => exact absurd h (by simp)
  | next steps hs ih =>
    rcases List.eq_nil_or_concat post with rfl | ⟨post', m', rfl⟩
    · obtain ⟨rfl, last⟩ := List.append_inj' h rfl
      obtain ⟨rfl, -⟩ := List.cons.inj last
      exact ⟨steps, _, hs, .stop⟩
    · rw [List.concat_eq_append, ← List.cons_append, ← List.append_assoc] at h
      obtain ⟨before, last⟩ := List.append_inj' h rfl
      obtain ⟨rfl, -⟩ := List.cons.inj last
      obtain ⟨first, b₁, step, rest⟩ := ih before
      refine ⟨first, b₁, step, ?_⟩
      rw [List.concat_eq_append]
      exact rest.next hs

/-- Only a look comes to something. -/
theorem Steps.looks_of_result {pre post : List (Moment α)} {m : Moment α} {r : Progress α}
    (steps : Steps capacity b ms b') (split : ms = pre ++ m :: post) (h : m.result? = some r) :
    Steps capacity b pre m.before ∧ ∃ now b₁, m.label = .look now ∧
      m.before.Looks now b₁ (some r) ∧ Steps capacity b₁ post b' := by
  obtain ⟨before, b₁, step, after⟩ := steps.split split
  rw [h] at step
  refine ⟨before, ?_⟩
  cases label : m.label with
  | send | close =>
    rw [label] at step
    cases step_moves step
  | look now =>
    rw [label] at step
    cases step_moves step with
    | looks looks => exact ⟨now, b₁, rfl, looks, after⟩

theorem result_of_batch? {m : Moment α} {items : List α} (h : m.batch? = some items) :
    m.result? = some (.batch items) := by
  unfold Moment.batch? at h
  split at h
  · next result => rw [result, Option.some.inj h]
  · nomatch h

/-- A batch that ends has its target size, or the channel is empty. -/
theorem Looks.batch_eq {items : List α} (looks : b.Looks now b' (some (.batch items))) :
    ∃ c, b.stage = .filling c ∧ items = c.items ∧ (b.target.size.toNat ≤ c.items.length ∨
      b.queue = [] ∧ (b.closed = true ∨ c.deadline ≤ now)) := by
  cases looks with
  | ends has due => exact ⟨_, has, rfl, by simpa [isDue] using due⟩

/-- Nothing goes into a closed channel. -/
theorem Steps.closed (steps : Steps capacity b ms b') (closed : b.closed = true) :
    b'.closed = true ∧ sent ms = [] := by
  induction steps with
  | stop => exact ⟨closed, rfl⟩
  | next _ h ih =>
    obtain ⟨shut, nothing⟩ := ih
    rw [sent_append, nothing]
    cases step_moves h with
    | sends whole opened | closes opened => exact absurd (opened.symm.trans shut) Bool.false_ne_true
    | looks looks => exact ⟨looks.closed_eq.trans shut, rfl⟩

/-! ## What a batcher owes -/

/-- `items` are a batch that ends at `now`, after these things have happened. -/
structure Complete (ms : List (Moment α)) (b : Batcher α) (now : Nat) (items : List α) : Prop where
  nonempty : items ≠ []
  /-- It is no larger than the target that was set when it began. -/
  size : items.length ≤ b.target.size.toNat
  /-- If it is smaller, then the channel holds nothing more for it, and either it is closed or the
  wait is over that began with the first item. -/
  early : ∃ t first, items.head? = some first ∧ Begun ms t first b.target ∧
    (items.length < b.target.size.toNat →
      b.queue = [] ∧ (b.closed = true ∨ t + b.target.wait ≤ now))

/-- A batch that has begun waits for an item: the channel is open and empty, the batch is smaller
than its target and its wait is not over. -/
structure Patient (ms : List (Moment α)) (b : Batcher α) (now : Nat) : Prop where
  empty : b.queue = []
  opened : b.closed = false
  early : ∀ c, b.stage = .filling c → c.items.length < b.target.size.toNat ∧
    ∃ t, Begun ms t c.first b.target ∧ now < t + b.target.wait

/-- What a batcher owes to whoever sends it items of `width` bytes, when these things have happened
to it. -/
structure Delivers (s : Settings) (width capacity : Nat) (ms : List (Moment α)) (b : Batcher α) :
    Prop where
  /-- The batches that came out, what the batcher has taken beside them, and what the channel holds
  are what was sent, in order. -/
  items : (batches ms).flatten ++ b.items = sent ms
  /-- Every batch is one. -/
  complete : ∀ {pre m post items}, ms = pre ++ m :: post → m.batch? = some items →
    ∃ now, m.label = .look now ∧ Complete pre m.before now items
  /-- That there are no more batches is said when all that was sent has come out, and then nothing
  more is sent. -/
  ended : ∀ {pre m post}, ms = pre ++ m :: post → m.result? = some .ended →
    m.before.closed = true ∧ (batches pre).flatten = sent ms
  /-- It waits only if it has to. -/
  waits : ∀ {pre m post}, ms = pre ++ m :: post → m.result? = some .pending →
    ∃ now, m.label = .look now ∧ Patient pre m.before now
  /-- A batch that has begun comes to its end: when its wait is over or nothing more will come, it
  takes no more looks than it lacks items, and one to end it, whatever is sent meanwhile. -/
  ends : ∀ {c ms' b'}, b.stage = .filling c → Steps capacity b ms' b' →
    (∀ m ∈ ms', m.Urgent c.deadline) →
    b.target.size.toNat < c.items.length + ms'.countP Moment.isLook →
      ∃ items ∈ batches ms', c.items <+: items
  /-- A whole look is a row of steps at its time, the last of which comes to something. -/
  look : ∀ now, ∃ n ms', Steps capacity b ms' (b.poll now).1 ∧
    ms'.map (fun m => (m.label, m.result?)) = wholeLook now n (b.poll now).2
  /-- It breaks down if a look finds no memory for the batch that is to begin, -/
  breaks : b.isBroken = true ↔ ∃ m ∈ ms, ∃ now, m.label = .look now ∧ m.before.Breaks now
  /-- and never if there can be memory for every batch. -/
  whole : s.Fits width → b.isBroken = false
  /-- Once it broke down nothing goes in, and nothing comes out. -/
  silent : b.isBroken = true → ∀ {ms' b'}, Steps capacity b ms' b' → sent ms' = [] ∧ batches ms' = []

theorem complete_of_looks (doubles : s.Doubles) (sound : b.Sound s width ms) {items : List α}
    (looks : b.Looks now b' (some (.batch items))) : Complete ms b now items := by
  obtain ⟨c, has, rfl, due⟩ := looks.batch_eq
  obtain ⟨t, begun, wait⟩ := sound.begun has
  obtain ⟨l, -, target⟩ := sound.target
  have one : 1 ≤ b.target.size.toNat := target ▸ Settings.one_le_size doubles l
  refine ⟨looks.ne_nil, max_eq_left one ▸ sound.filled has, t, c.first, rfl, begun, fun small => ?_⟩
  rw [← wait]
  exact due.resolve_left (Nat.not_le.mpr small)

theorem patient_of_looks (sound : b.Sound s width ms) (looks : b.Looks now b' (some .pending)) :
    Patient ms b now := by
  cases looks with
  | waits whole early empty opened =>
    refine ⟨empty, opened, fun c has => ?_⟩
    obtain ⟨t, begun, wait⟩ := sound.begun has
    have early := early c has
    simp only [isDue, empty, opened, List.isEmpty_nil, Bool.true_and, Bool.false_or,
      Bool.or_eq_false_iff, decide_eq_false_iff_not, Nat.not_le] at early
    exact ⟨early.1, t, begun, wait ▸ early.2⟩

/-- **A batcher breaks down** at a look that finds no memory for a batch. -/
theorem Steps.breaks_iff (whole : b.isBroken = false) (steps : Steps capacity b ms b') :
    b'.isBroken = true ↔ ∃ m ∈ ms, ∃ now, m.label = .look now ∧ m.before.Breaks now := by
  induction steps with
  | stop => simp [whole]
  | @next ms b' b'' l r? _ h ih =>
    have last : b''.isBroken = true ↔
        b'.isBroken = true ∨ ∃ now, l = .look now ∧ b'.Breaks now := by
      cases step_moves h with
      | sends => simp [isBroken, send]
      | closes => simp [isBroken, close]
      | looks looks =>
        rw [looks.isBroken_iff, looks.failed_iff]
        simp
    rw [last, ih]
    simp only [List.mem_append, List.mem_singleton, or_and_right, exists_or, exists_eq_left]

/-- **There is no breakdown** if there can be memory for every batch. -/
theorem Sound.whole (sound : b.Sound s width ms) (fits : s.Fits width) : b.isBroken = false := by
  refine Bool.eq_false_iff.mpr fun broken => ?_
  obtain ⟨x, was⟩ := isBroken_iff.mp broken
  obtain ⟨l, reaches, target⟩ := sound.target
  have unfit := sound.unfit was
  rw [target, fits.target reaches] at unfit
  exact absurd unfit.symm Bool.false_ne_true

/-- **What comes out of a batcher** is what went into it, in batches that are as large as they are
to be or have waited long enough, whatever the timing, until it breaks down; and that it does not do
before a batch is to be longer than a block of memory. -/
theorem delivers_of_steps (doubles : s.Doubles)
    (steps : Steps capacity (ofSettings s width) ms b) : Delivers s width capacity ms b where
  items := steps.sound.items
  complete := by
    intro pre m post items split h
    obtain ⟨before, now, b₁, label, looks, -⟩ :=
      steps.looks_of_result split (result_of_batch? h)
    exact ⟨now, label, complete_of_looks doubles before.sound looks⟩
  ended := by
    intro pre m post split h
    obtain ⟨before, now, b₁, label, looks, after⟩ := steps.looks_of_result split h
    cases looks with
    | stops idle empty closed =>
      have items := before.sound.items
      have nothing : m.before.items = [] := by simp [Batcher.items, Stage.items, idle, empty]
      rw [nothing, List.append_nil] at items
      refine ⟨closed, items.trans ?_⟩
      have last : sent (m :: post) = sent post := by simp [sent, label, Label.item?]
      rw [split, sent_append, last, (after.closed closed).2, List.append_nil]
  waits := by
    intro pre m post split h
    obtain ⟨before, now, b₁, label, looks, -⟩ := steps.looks_of_result split h
    exact ⟨now, label, patient_of_looks before.sound looks⟩
  ends := by
    intro c ms' b' has steps' urgent enough
    rcases steps'.fills has urgent with ended | ⟨c', grown⟩
    · exact ended
    · have few := grown.few
      have length := grown.length
      have filled := steps.sound.filled has
      obtain ⟨l, -, target⟩ := steps.sound.target
      have one : 1 ≤ b.target.size.toNat := target ▸ Settings.one_le_size doubles l
      omega
  look := fun now => poll_steps capacity b now
  breaks := steps.breaks_iff rfl
  whole := steps.sound.whole
  silent := by
    intro broken ms' b' steps'
    obtain ⟨x, was⟩ := isBroken_iff.mp broken
    exact (steps'.silent was).2

/-! ### A sample: three batches, each of which ends for another reason -/

namespace Sample

/-- At a low throughput four items are waited for, for a millisecond. -/
def settings : Settings :=
  { Settings.default with minSize := 2, maxSize := 9, window := .ofSeconds 1 }

/-- The first batch is full, the wait of the second is over, and the third is the last. -/
def labels : List (Label Nat) :=
  [.look 0, .send 0, .look 0, .look 0, .send 1, .look 0, .look 0, .send 2, .look 500000000,
    .send 3, .look 500000000, .look 500999999, .look 501000000, .send 4, .look 600000000, .send 5,
    .close, .look 600000000, .look 600000000, .look 600000000]

end Sample

theorem delivers_sample : Sample.settings.Doubles ∧ ∃ ms b,
    (ofSettings Sample.settings 8).play 2 Sample.labels = some (ms, b) ∧
    batches ms = [[0, 1], [2, 3], [4, 5]] ∧ sent ms = [0, 1, 2, 3, 4, 5] ∧
    ms.map (fun m => m.before.target.size) =
      [2, 2, 2, 2, 2, 2, 2, 2, 2, 4, 4, 4, 4, 4, 4, 4, 4, 4, 4, 4] ∧
    Sample.settings.Fits 8 ∧ Delivers Sample.settings 8 2 ms b := by
  have doubles : Sample.settings.Doubles := by decide
  have played : ((ofSettings Sample.settings 8).play 2 Sample.labels).map (fun r =>
      (batches r.1, sent r.1, r.1.map fun m => m.before.target.size)) =
      some ([[0, 1], [2, 3], [4, 5]], [0, 1, 2, 3, 4, 5],
        [2, 2, 2, 2, 2, 2, 2, 2, 2, 4, 4, 4, 4, 4, 4, 4, 4, 4, 4, 4]) := by
    decide +kernel
  obtain ⟨⟨ms, b⟩, plays, is⟩ := Option.map_eq_some_iff.mp played
  simp only [Prod.mk.injEq] at is
  exact ⟨doubles, ms, b, plays, is.1, is.2.1, is.2.2, by decide,
    delivers_of_steps doubles (steps_of_play plays)⟩

/-! ## An item that is lost -/

/-- The smallest size can be doubled in a word, but there is no memory for so many items of eight
bytes. -/
def vast : Settings := { Settings.default with minSize := 4611686018427387904 }

/-- **An item can be lost**: it is the only one that was sent, and though the channel is closed it
neither comes out nor is in the channel. -/
theorem item_lost : vast.Doubles ∧ ∃ ms, ∃ b : Batcher Nat,
    Steps 1 (ofSettings vast 8) ms b ∧ sent ms = [0] ∧ b.closed = true ∧ b.isBroken = true ∧
    (batches ms).flatten ++ b.queue ≠ sent ms := by
  have played : ((ofSettings vast 8).play 1 [.send 0, .close, .look 0]).map (fun r =>
      (sent r.1, batches r.1, r.2.queue, r.2.closed, r.2.isBroken)) =
      some ([0], [], [], true, true) := by
    decide +kernel
  obtain ⟨⟨ms, b⟩, plays, is⟩ := Option.map_eq_some_iff.mp played
  simp only [Prod.mk.injEq] at is
  obtain ⟨sent, batches, queue, closed, broken⟩ := is
  refine ⟨by decide, ms, b, steps_of_play plays, sent, closed, broken, ?_⟩
  simp [sent, batches, queue]

/-! ## The largest batch -/

/-- Nothing was measured yet, and the target is that of an idle batcher. -/
structure Unmeasured (s : Settings) (b : Batcher α) : Prop where
  settings : b.settings = s
  monitor : b.monitor = .ofWindow s.window
  target : b.target = s.target .idle

theorem Unmeasured.adapt (un : b.Unmeasured s) (now : Nat) : (b.adapt now).Unmeasured s := by
  have level : b.monitor.level now = .idle := un.monitor ▸ Monitor.level_ofWindow s.window now
  obtain ⟨settings, monitor, target⟩ := un
  unfold Batcher.adapt
  split
  · exact ⟨settings, monitor, by rw [← settings, ← level]⟩
  · exact ⟨settings, monitor, target⟩

/-- Until the first batch has come out nothing is measured. -/
theorem Steps.unmeasured (steps : Steps capacity (ofSettings s width) ms b)
    (none : batches ms = []) : b.Unmeasured s := by
  induction steps with
  | stop => exact ⟨rfl, rfl, rfl⟩
  | @next ms b b' l r? steps h ih =>
    rw [batches_append, List.append_eq_nil_iff] at none
    have un := ih none.1
    cases step_moves h with
    | sends | closes => exact ⟨un.settings, un.monitor, un.target⟩
    | @looks now _ _ looks =>
      cases looks with
      | begins | breaks =>
        have un := un.adapt now
        exact ⟨un.settings, un.monitor, un.target⟩
      | takes | stops | waits | broken => exact ⟨un.settings, un.monitor, un.target⟩
      | ends => exact absurd none.2 (List.cons_ne_nil _ _)

/-- If there is no memory for a first batch, then no batch comes out at all. -/
theorem Steps.none_of_unfit (unfit : (s.target .idle).fits width = false)
    (steps : Steps capacity (ofSettings s width) ms b) :
    batches ms = [] ∧ ∀ c, b.stage ≠ .filling c := by
  induction steps with
  | stop => exact ⟨rfl, nofun⟩
  | @next ms b b' l r? steps h ih =>
    obtain ⟨none, empty⟩ := ih
    rw [batches_append, none]
    cases step_moves h with
    | sends | closes => exact ⟨rfl, empty⟩
    | @looks now _ _ looks =>
      cases looks with
      | begins idle holds fits =>
        rw [((steps.unmeasured none).adapt now).target, steps.sound.width_eq, unfit] at fits
        exact absurd fits Bool.false_ne_true
      | breaks => exact ⟨rfl, nofun⟩
      | takes has | ends has => exact absurd has (empty _)
      | stops | waits | broken => exact ⟨rfl, empty⟩

theorem Steps.length_le_most (steps : Steps capacity (ofSettings s width) ms b) {items : List α}
    (mem : items ∈ batches ms) : items.length ≤ s.most.toNat := by
  obtain ⟨m, mem, h⟩ := List.mem_filterMap.mp mem
  obtain ⟨pre, post, split⟩ := List.append_of_mem mem
  obtain ⟨before, now, b₁, -, looks, -⟩ := steps.looks_of_result split (result_of_batch? h)
  obtain ⟨c, has, rfl, -⟩ := looks.batch_eq
  obtain ⟨l, -, target⟩ := before.sound.target
  have filled := before.sound.filled has
  have most := s.size_le_most l
  have one := Nat.le_trans s.one_le_least s.least_le_most
  rw [target] at filled
  omega

theorem steps_send (items : List α) (whole : b.isBroken = false) (opened : b.closed = false)
    (room : b.queue.length + items.length ≤ capacity) :
    ∃ ms, Steps capacity b ms (b.send items) ∧ sent ms = items ∧ batches ms = [] := by
  induction items generalizing b with
  | nil => exact ⟨[], by simpa [send] using Steps.stop, rfl, rfl⟩
  | cons item items ih =>
    rw [List.length_cons] at room
    have first : b.step capacity (.send item) = some (b.send [item], none) := by
      refine if_neg ?_
      simp [whole, opened]
      omega
    obtain ⟨ms, steps, sent, batches⟩ :=
      ih (b := b.send [item]) whole opened (by simp [send]; omega)
    refine ⟨⟨b, .send item, none⟩ :: ms, ?_, congrArg (item :: ·) sent, batches⟩
    have same : (b.send [item]).send items = b.send (item :: items) := by simp [send]
    exact same ▸ Steps.append (.single first) steps

/-- A whole look comes to something with its last step. -/
theorem last_of_wholeLook {n : Nat} {r : Progress α}
    (h : ms.map (fun m => (m.label, m.result?)) = wholeLook now n r) :
    ∃ pre m, ms = pre ++ [m] ∧ sent pre = [] ∧ batches pre = [] ∧ m.result? = some r := by
  obtain ⟨pre, last, rfl, steps, ends⟩ := List.map_eq_append_iff.mp h
  obtain ⟨m, rfl, is⟩ := List.map_eq_singleton_iff.mp ends
  have each : ∀ m ∈ pre, (m.label, m.result?) = (.look now, none) := by
    intro m mem
    refine List.eq_of_mem_replicate (n := n) ?_
    rw [← steps]
    exact List.mem_map_of_mem mem
  refine ⟨pre, m, rfl, ?_, ?_, (Prod.mk.inj is).2⟩
  · refine List.filterMap_eq_nil_iff.mpr fun m mem => ?_
    rw [(Prod.mk.inj (each m mem)).1]
    rfl
  · refine List.filterMap_eq_nil_iff.mpr fun m mem => ?_
    rw [Moment.batch?, (Prod.mk.inj (each m mem)).2]

/-- If as many items as the smallest size were sent, and there is memory for a batch of them, then
the first batch has all of them. -/
theorem Steps.first_batch {r : Progress α} (fits : (s.target .idle).fits width = true)
    (steps : Steps capacity (ofSettings s width) ms b)
    (none : batches ms = []) (closed : b.closed = true)
    (size : (sent ms).length = s.least.toNat) (looks : b.Looks now b' (some r)) :
    ∃ items, r = .batch items ∧ items.length = s.least.toNat := by
  have sound := steps.sound
  have un := steps.unmeasured none
  have items : b.items = sent ms := by
    have items := sound.items
    rwa [none] at items
  have some_ : 1 ≤ s.least.toNat := s.one_le_least
  cases r with
  | batch items' =>
    obtain ⟨c, has, rfl, due⟩ := looks.batch_eq
    refine ⟨c.items, rfl, ?_⟩
    have target : b.target.size.toNat = s.least.toNat := by rw [un.target]; rfl
    have filled := sound.filled has
    have total : c.items.length + b.queue.length = s.least.toNat := by
      rw [← size, ← items, Batcher.items, has]
      exact List.length_append.symm
    rcases due with full | ⟨empty, -⟩
    · omega
    · rw [empty] at total
      exact total
  | ended =>
    cases looks with
    | stops idle empty _ =>
      rw [← items, Batcher.items, idle, empty] at size
      exact absurd size (Nat.ne_of_lt some_)
  | failed =>
    rcases looks.failed_iff.mp rfl with broken | ⟨-, -, unfit⟩
    · obtain ⟨x, was⟩ := isBroken_iff.mp broken
      have unfit := sound.unfit was
      rw [un.target, fits] at unfit
      exact absurd unfit.symm Bool.false_ne_true
    · rw [(un.adapt now).target, sound.width_eq, fits] at unfit
      exact absurd unfit.symm Bool.false_ne_true
  | pending => exact absurd rfl (looks.settled closed)

/-- **A first batch of the smallest size** comes out if so many items are sent. -/
theorem least_reached (fits : (s.target .idle).fits width = true) (x : α) :
    ∃ capacity ms, ∃ b : Batcher α, Steps capacity (ofSettings s width) ms b ∧
      ∃ items ∈ batches ms, items.length = s.least.toNat := by
  let empty : Batcher α := ofSettings s width
  let xs := List.replicate s.least.toNat x
  have room : empty.queue.length + xs.length ≤ s.least.toNat := by
    simp [empty, ofSettings, xs]
  obtain ⟨ms₁, sends, sent₁, none₁⟩ := steps_send xs rfl rfl room
  have closes : Steps s.least.toNat empty (ms₁ ++ [⟨empty.send xs, .close, none⟩])
      (empty.send xs).close := sends.next rfl
  obtain ⟨n, ms₂, whole, labels⟩ := poll_steps s.least.toNat (empty.send xs).close 0
  obtain ⟨pre, m, rfl, sent₂, none₂, result⟩ := last_of_wholeLook labels
  obtain ⟨before, now, b', -, looks, -⟩ := whole.looks_of_result rfl result
  have steps := closes.append before
  have size : (sent (ms₁ ++ [⟨empty.send xs, .close, none⟩] ++ pre)).length = s.least.toNat := by
    rw [sent_append, sent_append, sent₁, sent₂, List.append_nil]
    simp [xs, sent, Label.item?]
  have none : batches (ms₁ ++ [⟨empty.send xs, .close, none⟩] ++ pre) = [] := by
    rw [batches_append, batches_append, none₁, none₂]
    rfl
  obtain ⟨items, is, length⟩ := steps.first_batch fits none (before.closed rfl).1 size looks
  refine ⟨_, _, _, closes.append whole, items, ?_, length⟩
  rw [batches_append]
  refine List.mem_append_right _ (List.mem_filterMap.mpr ⟨m, List.mem_append_right _ ?_, ?_⟩)
  · exact List.mem_singleton_self m
  · rw [Moment.batch?, result, is]

/-- Every batch that can come out, of items of `width` bytes, holds so many items at most. -/
def Bounded (α : Type) (width : Nat) (s : Settings) (n : Nat) : Prop :=
  ∀ {capacity ms} {b : Batcher α}, Steps capacity (ofSettings s width) ms b →
    ∀ items ∈ batches ms, items.length ≤ n

/-- **Batches keep to the largest size** if it is not below the smallest, and only then, unless no
batch comes out because there is no memory for one; they always keep to the larger of the two. -/
theorem largest_iff (x : α) (width : Nat) (positive : 1 ≤ s.maxSize) :
    Bounded α width s (max s.maxSize s.minSize).toNat ∧
      (Bounded α width s s.maxSize.toNat ↔
        s.minSize ≤ s.maxSize ∨ (s.target .idle).fits width = false) := by
  have largest : Bounded α width s (max s.maxSize s.minSize).toNat := by
    intro capacity ms b steps items mem
    have most := steps.length_le_most mem
    rw [s.toNat_most, s.toNat_least] at most
    rw [Settings.toNat_max]
    have one : 1 ≤ s.maxSize.toNat := UInt64.le_iff_toNat_le.mp positive
    omega
  refine ⟨largest, fun bounded => ?_, ?_⟩
  · cases fits : (s.target .idle).fits width with
    | false => exact .inr rfl
    | true =>
      obtain ⟨capacity, ms, b, steps, items, mem, length⟩ := least_reached fits x
      have few := bounded steps items mem
      rw [length, s.toNat_least] at few
      exact .inl (UInt64.le_iff_toNat_le.mpr (Nat.le_trans (Nat.le_max_left _ _) few))
  · rintro (ordered | unfit) capacity ms b steps items mem
    · have few := largest steps items mem
      rw [Settings.toNat_max] at few
      exact Nat.max_eq_left (UInt64.le_iff_toNat_le.mp ordered) ▸ few
    · rw [(steps.none_of_unfit unfit).1] at mem
      exact absurd mem List.not_mem_nil

/-- The larger of the two sizes is meant to be the smallest. -/
def reversed : Settings := { Settings.default with minSize := 10, maxSize := 5 }

theorem largest_sample : 1 ≤ reversed.maxSize ∧ Bounded Nat 8 reversed 10 ∧
    ¬Bounded Nat 8 reversed reversed.maxSize.toNat := by
  have positive : 1 ≤ reversed.maxSize := by decide
  obtain ⟨bounded, iff⟩ := largest_iff (0 : Nat) 8 positive
  exact ⟨positive, bounded, fun h => absurd (iff.mp h) (by decide)⟩

/-- **The largest size is not always kept to**: seven items that were sent are one batch. -/
theorem above_largest : 1 ≤ reversed.maxSize ∧ ∃ ms, ∃ b : Batcher Nat,
    Steps 7 (ofSettings reversed 8) ms b ∧ [0, 1, 2, 3, 4, 5, 6] ∈ batches ms ∧
    reversed.maxSize.toNat < [0, 1, 2, 3, 4, 5, 6].length := by
  have played : ((ofSettings reversed 8).play 7 ([0, 1, 2, 3, 4, 5, 6].map .send ++ .close ::
      .replicate 8 (.look 0))).map (fun r => batches r.1) = some [[0, 1, 2, 3, 4, 5, 6]] := by
    decide +kernel
  obtain ⟨⟨ms, b⟩, plays, is⟩ := Option.map_eq_some_iff.mp played
  exact ⟨by decide, ms, b, steps_of_play plays, is ▸ List.mem_singleton_self _, by decide⟩

end Batching.Batcher

end ChangeRelay
