import ChangeRelay.Proofs.Batching.Look
import ChangeRelay.Proofs.Batching.Target

/-!
# What happens to a batcher

Items are put into the channel of a batcher, the channel is closed, and the batcher looks at it,
step by step. `Steps` writes down what happens, in any order and at any times: items come while a
batch is filling and while nobody looks, as long as the channel has room for them, is open and is
read by a batcher that has not broken down.

A batch begins at one look and ends at a later one. `Begun` points back to where it began, which is
where its target was set and from where its wait is measured.

* **`Steps.sound`**: what holds of a batcher at every moment, step by step.
* **`Steps.silent`**: a batcher that broke down stays as it is, and nothing comes out.
* **`Steps.fills`**: while a batch does not end, each look that does not wait takes an item into it.
* **`poll_steps`**: a whole look is a row of steps, all at its time.
-/

namespace ChangeRelay.Batching

variable {α : Type}

/-- What happens to a batcher and its channel. -/
inductive Label (α : Type)
  /-- An item is put into the channel. -/
  | send (item : α)
  /-- No more items will come. -/
  | close
  /-- The batcher takes a step of a look at the channel. -/
  | look (now : Nat)
deriving DecidableEq, Repr

/-- The item that goes into the channel. -/
def Label.item? : Label α → Option α
  | .send item => some item
  | _ => none

/-- One thing that happened, and what a look came to. -/
structure Moment (α : Type) where
  before : Batcher α
  label : Label α
  result? : Option (Progress α)

namespace Moment

/-- The batch that ended. -/
def batch? (m : Moment α) : Option (List α) :=
  match m.result? with
  | some (.batch items) => some items
  | _ => none

def isLook (m : Moment α) : Bool :=
  match m.label with
  | .look _ => true
  | _ => false

/-- If this is a look, then the wait is over or nothing more will come. -/
def Urgent (deadline : Nat) (m : Moment α) : Prop :=
  ∀ now, m.label = .look now → deadline ≤ now ∨ m.before.closed = true

end Moment

/-- The items that went into the channel. -/
def sent (ms : List (Moment α)) : List α := ms.filterMap fun m => m.label.item?

/-- The batches that came out. -/
def batches (ms : List (Moment α)) : List (List α) := ms.filterMap Moment.batch?

theorem sent_append (ms ms' : List (Moment α)) : sent (ms ++ ms') = sent ms ++ sent ms' :=
  List.filterMap_append

theorem batches_append (ms ms' : List (Moment α)) :
    batches (ms ++ ms') = batches ms ++ batches ms' := List.filterMap_append

theorem flatten_batches_singleton (m : Moment α) :
    (batches [m]).flatten = Progress.items m.result? := by
  obtain ⟨b, l, r?⟩ := m
  cases r? with
  | none => rfl
  | some r => cases r with
    | batch items => exact List.append_nil items
    | ended | failed | pending => rfl

/-- A batch began at `t` with an item and a target, and none has ended since. -/
inductive Begun (ms : List (Moment α)) : Nat → α → Target → Prop
  | intro {pre post : List (Moment α)} {m : Moment α} {t : Nat} {first : α}
      (split : ms = pre ++ m :: post) (look : m.label = .look t)
      (idle : m.before.stage = .idle) (holds : m.before.queue.head? = some first)
      (since : batches post = []) : Begun ms t first (m.before.adapt t).target

theorem Begun.concat {ms : List (Moment α)} {t : Nat} {first : α} {target : Target}
    (begun : Begun ms t first target) {m : Moment α} (h : m.batch? = none) :
    Begun (ms ++ [m]) t first target := by
  obtain ⟨split, look, idle, holds, since⟩ := begun
  refine .intro (by rw [split, List.append_assoc, List.cons_append]) look idle holds ?_
  rw [batches_append, since]
  simp [batches, h]

namespace Batcher

variable {capacity : Nat} {b b' b'' : Batcher α} {l : Label α} {r? : Option (Progress α)}

/-- A batcher that broke down takes no items. -/
def isBroken (b : Batcher α) : Bool :=
  match b.stage with
  | .broken _ => true
  | _ => false

theorem isBroken_iff : b.isBroken = true ↔ ∃ x, b.stage = .broken x := by
  unfold isBroken
  cases b.stage <;> simp

/-- A step of a batcher, whose channel has room for so many items. -/
def step (capacity : Nat) (b : Batcher α) : Label α → Option (Batcher α × Option (Progress α))
  | .send item =>
    if b.isBroken || b.closed || capacity ≤ b.queue.length then none
    else some (b.send [item], none)
  | .close => if b.closed then none else some (b.close, none)
  | .look now => some (b.look now)

/-- This happens to `b`, one after the other, and leaves it as `b'`. -/
inductive Steps (capacity : Nat) (b : Batcher α) : List (Moment α) → Batcher α → Prop
  | stop : Steps capacity b [] b
  | next {ms : List (Moment α)} {b' b'' : Batcher α} {l : Label α} {r? : Option (Progress α)}
      (steps : Steps capacity b ms b') (h : b'.step capacity l = some (b'', r?)) :
      Steps capacity b (ms ++ [⟨b', l, r?⟩]) b''

/-- Writes down what happens under one label after the other, as long as it can. -/
def playFrom (capacity : Nat) (ms : List (Moment α)) (b : Batcher α) :
    List (Label α) → Option (List (Moment α) × Batcher α)
  | [] => some (ms, b)
  | l :: ls => match b.step capacity l with
    | some (b', r?) => playFrom capacity (ms ++ [⟨b, l, r?⟩]) b' ls
    | none => none

def play (capacity : Nat) (b : Batcher α) (ls : List (Label α)) :
    Option (List (Moment α) × Batcher α) := playFrom capacity [] b ls

theorem steps_of_playFrom {ms ms' : List (Moment α)} {ls : List (Label α)}
    (steps : Steps capacity b ms b') (h : playFrom capacity ms b' ls = some (ms', b'')) :
    Steps capacity b ms' b'' := by
  induction ls generalizing ms b' with
  | nil =>
    obtain ⟨rfl, rfl⟩ := Prod.mk.inj (Option.some.inj h)
    exact steps
  | cons l ls ih =>
    rw [playFrom] at h
    split at h
    · next hs => exact ih (steps.next hs) h
    · nomatch h

theorem steps_of_play {ms : List (Moment α)} {ls : List (Label α)}
    (h : b.play capacity ls = some (ms, b')) : Steps capacity b ms b' :=
  steps_of_playFrom .stop h

theorem Steps.single (h : b.step capacity l = some (b', r?)) :
    Steps capacity b [⟨b, l, r?⟩] b' :=
  Steps.next .stop h

theorem Steps.append {ms ms' : List (Moment α)} (steps : Steps capacity b ms b')
    (steps' : Steps capacity b' ms' b'') : Steps capacity b (ms ++ ms') b'' := by
  induction steps' with
  | stop => rwa [List.append_nil]
  | next _ h ih =>
    rw [← List.append_assoc]
    exact ih.next h

/-! ## What one step does -/

/-- `b'` and `r?` are what a batcher comes to under a label. -/
inductive Moves (capacity : Nat) (b : Batcher α) :
    Label α → Batcher α → Option (Progress α) → Prop
  | sends {item : α} (whole : b.isBroken = false) (opened : b.closed = false)
      (room : b.queue.length < capacity) :
      Moves capacity b (.send item) (b.send [item]) none
  | closes (opened : b.closed = false) : Moves capacity b .close b.close none
  | looks {now : Nat} {b' : Batcher α} {r? : Option (Progress α)} (looks : b.Looks now b' r?) :
      Moves capacity b (.look now) b' r?

theorem step_moves (h : b.step capacity l = some (b', r?)) : Moves capacity b l b' r? := by
  cases l with
  | send item =>
    obtain ⟨can, h⟩ := Option.ite_none_left_eq_some.mp h
    obtain ⟨rfl, rfl⟩ := Prod.mk.inj (Option.some.inj h)
    simp only [Bool.or_eq_true, decide_eq_true_eq, not_or, Bool.not_eq_true, Nat.not_le] at can
    exact .sends can.1.1 can.1.2 can.2
  | close =>
    obtain ⟨can, h⟩ := Option.ite_none_left_eq_some.mp h
    obtain ⟨rfl, rfl⟩ := Prod.mk.inj (Option.some.inj h)
    exact .closes (Bool.not_eq_true _ ▸ can)
  | look now =>
    obtain h := Option.some.inj h
    have looks := b.looks now
    rw [h] at looks
    exact .looks looks

/-- **A step keeps the items**, and those that are sent come behind them. -/
theorem Moves.items_eq (moves : Moves capacity b l b' r?) :
    Progress.items r? ++ b'.items = b.items ++ l.item?.toList := by
  cases moves with
  | sends => simp [items, Progress.items, send, Label.item?]
  | closes => simp [items, Progress.items, close, Label.item?]
  | looks looks => exact looks.items_eq.trans (List.append_nil _).symm

/-! ## What holds at every moment -/

/-- What holds of a batcher with these settings and items of `width` bytes, after these things have
happened to it. -/
structure Sound (s : Settings) (width : Nat) (ms : List (Moment α)) (b : Batcher α) : Prop where
  settings : b.settings = s
  width_eq : b.width = width
  target : ∃ l, s.Reaches l ∧ b.target = s.target l
  /-- A batch does not grow past its target. -/
  filled : ∀ {c}, b.stage = .filling c → c.items.length ≤ max b.target.size.toNat 1
  /-- Its wait is measured from where it began. -/
  begun : ∀ {c}, b.stage = .filling c →
    ∃ t, Begun ms t c.first b.target ∧ c.deadline = t + b.target.wait
  /-- It broke down over a target that is too large. -/
  unfit : ∀ {x}, b.stage = .broken x → b.target.fits width = false
  /-- What came out and what is still there is what was sent. -/
  items : (batches ms).flatten ++ b.items = sent ms

theorem adapt_settings (b : Batcher α) (now : Nat) : (b.adapt now).settings = b.settings := by
  unfold adapt
  split <;> rfl

/-- The target follows throughput, if the settings say so. -/
theorem adapt_target (b : Batcher α) (now : Nat) :
    (b.adapt now).target = b.target ∨ b.settings.adaptive = true ∧
      (b.adapt now).target = b.settings.target (b.monitor.level now) := by
  unfold adapt
  split
  · next adaptive => exact .inr ⟨adaptive, rfl⟩
  · exact .inl rfl

theorem length_take (c : Collecting α) (item : α) :
    (c.take item).items.length = c.items.length + 1 := by
  simp [Collecting.items, Collecting.take]

/-- A batch that has its target size is due. -/
theorem length_lt_of_not_due {c : Collecting α} {now : Nat} (h : b.isDue now c = false) :
    c.items.length < b.target.size.toNat := by
  simp only [isDue, Bool.or_eq_false_iff, decide_eq_false_iff_not, Nat.not_le] at h
  exact h.1

theorem sound_start (s : Settings) (width : Nat) : (ofSettings s width : Batcher α).Sound s width []
    where
  settings := rfl
  width_eq := rfl
  target := ⟨.idle, .inr rfl, rfl⟩
  filled := nofun
  begun := nofun
  unfit := nofun
  items := rfl

variable {s : Settings} {width : Nat} {ms : List (Moment α)}

/-- What has not begun a batch keeps what holds of the one that had begun, if it is still there. -/
theorem Sound.keep (sound : b.Sound s width ms) {m : Moment α} (settings : b'.settings = b.settings)
    (wide : b'.width = b.width) (target : b'.target = b.target)
    (stays : ∀ {c'}, b'.stage = .filling c' → m.batch? = none ∧ ∃ c, b.stage = .filling c ∧
      c'.first = c.first ∧ c'.deadline = c.deadline ∧
      c'.items.length ≤ max b.target.size.toNat 1)
    (breaks : ∀ {x}, b'.stage = .broken x → b.stage = .broken x)
    (items : (batches (ms ++ [m])).flatten ++ b'.items = sent (ms ++ [m])) :
    b'.Sound s width (ms ++ [m]) where
  settings := settings.trans sound.settings
  width_eq := wide.trans sound.width_eq
  target := target ▸ sound.target
  filled := by
    intro c' has
    obtain ⟨-, c, -, -, -, filled⟩ := stays has
    exact target ▸ filled
  begun := by
    intro c' has
    obtain ⟨quiet, c, had, first, deadline, -⟩ := stays has
    obtain ⟨t, begun, wait⟩ := sound.begun had
    rw [target, first, deadline]
    exact ⟨t, begun.concat quiet, wait⟩
  unfit := fun was => target ▸ sound.unfit (breaks was)
  items := items

/-- A new target is one that the settings have. -/
theorem Sound.adapt (sound : b.Sound s width ms) (now : Nat) :
    ∃ l, s.Reaches l ∧ (b.adapt now).target = s.target l := by
  rcases adapt_target b now with old | ⟨adaptive, new⟩
  · rw [old]
    exact sound.target
  · rw [new, sound.settings]
    exact ⟨_, .inl (sound.settings ▸ adaptive), rfl⟩

/-- **What a step preserves.** -/
theorem Sound.step (sound : b.Sound s width ms) (h : b.step capacity l = some (b', r?)) :
    b'.Sound s width (ms ++ [⟨b, l, r?⟩]) := by
  have moves := step_moves h
  have items : (batches (ms ++ [⟨b, l, r?⟩])).flatten ++ b'.items =
      sent (ms ++ [⟨b, l, r?⟩]) := by
    rw [batches_append, List.flatten_append, flatten_batches_singleton, List.append_assoc,
      moves.items_eq, ← List.append_assoc, sound.items, sent_append]
    cases l <;> rfl
  cases moves with
  | sends | closes =>
    exact sound.keep rfl rfl rfl (fun has => ⟨rfl, _, has, rfl, rfl, sound.filled has⟩) id items
  | @looks now _ _ looks =>
    cases looks with
    | @begins first queue idle holds fits =>
      refine ⟨(adapt_settings b now).trans sound.settings, adapt_width.trans sound.width_eq,
        sound.adapt now, ?_, ?_, nofun, items⟩
      · intro c has
        obtain rfl := Stage.filling.inj has
        exact Nat.le_max_right _ _
      · intro c has
        obtain rfl := Stage.filling.inj has
        exact ⟨now, .intro rfl rfl idle (by rw [holds]; rfl) rfl, rfl⟩
    | @breaks first queue idle holds unfit =>
      exact ⟨(adapt_settings b now).trans sound.settings, adapt_width.trans sound.width_eq,
        sound.adapt now, nofun, nofun, fun _ => sound.width_eq ▸ unfit, items⟩
    | @takes c item queue has open_ holds =>
      refine sound.keep rfl rfl rfl ?_ nofun items
      intro c' has'
      obtain rfl := Stage.filling.inj has'
      have few := length_lt_of_not_due open_
      refine ⟨rfl, c, has, rfl, rfl, ?_⟩
      rw [length_take]
      exact Nat.le_trans few (Nat.le_max_left _ _)
    | ends has due => exact sound.keep rfl rfl rfl nofun nofun items
    | stops | waits | broken =>
      exact sound.keep rfl rfl rfl (fun has => ⟨rfl, _, has, rfl, rfl, sound.filled has⟩) id items

/-- **What holds at every moment.** -/
theorem Steps.sound (steps : Steps capacity (ofSettings s width) ms b) : b.Sound s width ms := by
  induction steps with
  | stop => exact sound_start s width
  | next _ h ih => exact ih.step h

/-! ## A batcher that broke down -/

/-- **A batcher that broke down** stays as it is: nothing goes in, and nothing comes out. -/
theorem Steps.silent {x : α} (was : b.stage = .broken x) (steps : Steps capacity b ms b') :
    b'.stage = .broken x ∧ sent ms = [] ∧ batches ms = [] := by
  induction steps with
  | stop => exact ⟨was, rfl, rfl⟩
  | next _ h ih =>
    obtain ⟨still, nothing, none⟩ := ih
    rw [sent_append, batches_append, nothing, none]
    cases step_moves h with
    | sends whole =>
      exact absurd (isBroken_iff.mpr ⟨x, still⟩) (Bool.eq_false_iff.mp whole)
    | closes => exact ⟨still, rfl, rfl⟩
    | looks looks =>
      cases looks with
      | begins idle | breaks idle | stops idle => exact absurd (still.symm.trans idle) nofun
      | takes has | ends has => exact absurd (still.symm.trans has) nofun
      | waits whole => exact absurd still (whole x)
      | broken was => exact ⟨still, rfl, rfl⟩

/-- The look finds no memory for the batch that is to begin. -/
def Breaks (b : Batcher α) (now : Nat) : Prop :=
  b.stage = .idle ∧ b.queue ≠ [] ∧ (b.adapt now).target.fits b.width = false

/-- A batcher is broken after a look that fails, and after no other. -/
theorem Looks.isBroken_iff {now : Nat} (looks : b.Looks now b' r?) :
    b'.isBroken = true ↔ r? = some .failed := by
  unfold isBroken
  cases looks with
  | begins | breaks | takes | ends => simp [finish]
  | stops idle => simp [idle]
  | waits whole => cases stage : b.stage <;> simp [stage] at whole ⊢
  | broken was => simp [was]

/-- **A look fails** if there is no memory for the batch that is to begin, or if that has happened
before. -/
theorem Looks.failed_iff {now : Nat} (looks : b.Looks now b' r?) :
    r? = some .failed ↔ b.isBroken = true ∨ b.Breaks now := by
  unfold Breaks
  rw [Batcher.isBroken_iff]
  cases looks with
  | begins idle holds fits => simp [idle, fits]
  | breaks idle holds unfit => simp [idle, holds, unfit]
  | takes has | ends has => simp [has]
  | stops idle empty closed => simp [idle, empty]
  | waits whole early empty opened => simp [empty, whole]
  | broken was => simp [was]

/-! ## How a batch comes to its end -/

/-- `b'` goes on with a batch, which has grown by so many items. -/
structure Grown (b : Batcher α) (c : Collecting α) (n : Nat) (b' : Batcher α) (c' : Collecting α) :
    Prop where
  has : b'.stage = .filling c'
  target : b'.target = b.target
  deadline : c'.deadline = c.deadline
  extends_ : c.items <+: c'.items
  length : c'.items.length = c.items.length + n
  few : c'.items.length ≤ max b.target.size.toNat c.items.length

/-- **A batch fills** with every look that comes when its wait is over, until it ends. -/
theorem Steps.fills {c : Collecting α} (has : b.stage = .filling c)
    (steps : Steps capacity b ms b') (urgent : ∀ m ∈ ms, m.Urgent c.deadline) :
    (∃ items ∈ batches ms, c.items <+: items) ∨
      ∃ c', Grown b c (ms.countP Moment.isLook) b' c' := by
  induction steps with
  | stop => exact .inr ⟨c, has, rfl, rfl, List.prefix_rfl, rfl, Nat.le_max_right _ _⟩
  | @next ms b' b'' l r? _ h ih =>
    obtain ⟨urgent, last⟩ := List.forall_mem_append.mp urgent
    rcases ih urgent with ⟨items, mem, extends_⟩ | ⟨c', grown⟩
    · exact .inl ⟨items, batches_append ms _ ▸ List.mem_append_left _ mem, extends_⟩
    have last := last _ (List.mem_singleton_self _)
    rw [List.countP_append]
    cases step_moves h with
    | sends | closes =>
      exact .inr ⟨c', grown.has, grown.target, grown.deadline, grown.extends_, grown.length,
        grown.few⟩
    | @looks now _ _ looks =>
      cases looks with
      | begins idle | breaks idle | stops idle =>
        exact absurd (grown.has.symm.trans idle) nofun
      | broken was => exact absurd (grown.has.symm.trans was) nofun
      | @takes c₀ item queue has' open_ holds =>
        obtain rfl := Stage.filling.inj (grown.has.symm.trans has')
        have few := length_lt_of_not_due open_
        have length := grown.length
        refine .inr ⟨_, rfl, grown.target, grown.deadline,
          grown.extends_.trans (List.prefix_append _ _), ?_, ?_⟩
        · rw [length_take, length]
          rfl
        · rw [length_take, ← grown.target]
          exact Nat.le_trans few (Nat.le_max_left _ _)
      | @ends c₀ has' due =>
        obtain rfl := Stage.filling.inj (grown.has.symm.trans has')
        refine .inl ⟨_, ?_, grown.extends_⟩
        rw [batches_append]
        exact List.mem_append_right _ (List.mem_singleton_self _)
      | waits whole early empty opened =>
        have early := early c' grown.has
        simp only [isDue, empty, opened, List.isEmpty_nil, Bool.true_and, Bool.false_or,
          Bool.or_eq_false_iff, decide_eq_false_iff_not] at early
        rcases last now rfl with late | closed
        · exact absurd (grown.deadline ▸ late) early.2
        · exact absurd (opened.symm.trans closed) Bool.false_ne_true

/-- A step that comes to nothing takes an item from the channel. -/
theorem Looks.queue_lt {now : Nat} (looks : b.Looks now b' none) :
    b'.queue.length < b.queue.length := by
  cases looks with
  | begins idle holds => simp [holds]
  | takes has open_ holds => simp [holds]

/-- What happens in a whole look that comes to `r` after so many steps. -/
def wholeLook (now n : Nat) (r : Progress α) : List (Label α × Option (Progress α)) :=
  .replicate n (.look now, none) ++ [(.look now, some r)]

/-- **A whole look** is a row of steps at its time, until one of them comes to something. -/
theorem pollFor_steps (capacity now : Nat) {left : Nat} (enough : b.queue.length < left) :
    ∃ n ms, Steps capacity b ms (b.pollFor now left).1 ∧
      ms.map (fun m => (m.label, m.result?)) = wholeLook now n (b.pollFor now left).2 := by
  induction left generalizing b with
  | zero => exact absurd enough (Nat.not_lt_zero _)
  | succ left ih =>
    have looks := b.looks now
    unfold pollFor
    split
    · next b' h =>
      rw [h] at looks
      have first : b.step capacity (.look now) = some (b', none) := congrArg some h
      obtain ⟨n, ms, steps, labels⟩ :=
        ih (Nat.lt_of_lt_of_le looks.queue_lt (Nat.le_of_lt_succ enough))
      refine ⟨n + 1, [⟨b, .look now, none⟩] ++ ms, .append (.single first) steps, ?_⟩
      rw [List.map_append, labels]
      rfl
    · next b' r h =>
      have first : b.step capacity (.look now) = some (b', some r) := congrArg some h
      exact ⟨0, [⟨b, .look now, some r⟩], .single first, rfl⟩

theorem poll_steps (capacity : Nat) (b : Batcher α) (now : Nat) :
    ∃ n ms, Steps capacity b ms (b.poll now).1 ∧
      ms.map (fun m => (m.label, m.result?)) = wholeLook now n (b.poll now).2 :=
  pollFor_steps capacity now (Nat.lt_succ_self _)

end Batcher

end ChangeRelay.Batching
