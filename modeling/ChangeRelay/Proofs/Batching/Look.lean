import ChangeRelay.Batching.Batcher

/-!
# What a look at the channel does

A look at the channel goes step by step, and a step does one of seven things: it begins a batch or
finds no memory for it, takes an item into it, ends it, or finds that nothing more will come, that
it has to wait, or that the batcher is broken. `Looks` says when it does which, and every fact about
looks is read off it.

* **`looks`**: each step is one of the seven.
* **`Looks.items_eq`**: a step neither drops an item nor doubles one nor swaps two.
* **`Looks.settled`**: in a closed channel there is nothing to wait for.
-/

namespace ChangeRelay.Batching

variable {α : Type}

/-- The items that come out of a step. -/
def Progress.items : Option (Progress α) → List α
  | some (.batch items) => items
  | _ => []

/-- The items that a batcher has taken and not given out: those of the batch that has begun, or the
one that was lost. -/
def Stage.items : Stage α → List α
  | .idle => []
  | .filling c => c.items
  | .broken lost => [lost]

namespace Batcher

variable {b : Batcher α} {now : Nat}

/-- The items that a batcher has taken, and then those in the channel. -/
def items (b : Batcher α) : List α := b.stage.items ++ b.queue

/-- It makes no difference to a target what the channel holds. -/
theorem adapt_withQueue (b : Batcher α) (queue : List α) (now : Nat) :
    { b with queue }.adapt now = { b.adapt now with queue } := by
  unfold adapt
  split <;> rfl

@[simp] theorem adapt_closed : (b.adapt now).closed = b.closed := by
  unfold adapt
  split <;> rfl

@[simp] theorem adapt_width : (b.adapt now).width = b.width := by
  unfold adapt
  split <;> rfl

/-- `b'` and `r?` are what a step of a look at the channel of `b` comes to. -/
inductive Looks (b : Batcher α) (now : Nat) : Batcher α → Option (Progress α) → Prop
  /-- A batch begins with the first item in the channel. -/
  | begins {first : α} {queue : List α} (idle : b.stage = .idle) (holds : b.queue = first :: queue)
      (fits : (b.adapt now).target.fits b.width = true) :
      Looks b now
        { b.adapt now with
          queue, stage := .filling ⟨first, [], now + (b.adapt now).target.wait⟩ } none
  /-- There is no memory for the batch that was to begin. -/
  | breaks {first : α} {queue : List α} (idle : b.stage = .idle) (holds : b.queue = first :: queue)
      (unfit : (b.adapt now).target.fits b.width = false) :
      Looks b now { b.adapt now with queue, stage := .broken first } (some .failed)
  /-- The batch takes the next item. -/
  | takes {c : Collecting α} {item : α} {queue : List α} (has : b.stage = .filling c)
      (open_ : b.isDue now c = false) (holds : b.queue = item :: queue) :
      Looks b now { b with queue, stage := .filling (c.take item) } none
  /-- The batch ends. -/
  | ends {c : Collecting α} (has : b.stage = .filling c) (due : b.isDue now c = true) :
      Looks b now (b.finish now c.items.length) (some (.batch c.items))
  /-- There will be no batch. -/
  | stops (idle : b.stage = .idle) (empty : b.queue = []) (closed : b.closed = true) :
      Looks b now b (some .ended)
  /-- Nothing is there to be taken, and there is no reason to end a batch. -/
  | waits (whole : ∀ x, b.stage ≠ .broken x)
      (early : ∀ c, b.stage = .filling c → b.isDue now c = false) (empty : b.queue = [])
      (opened : b.closed = false) : Looks b now b (some .pending)
  /-- It broke down before. -/
  | broken {x : α} (was : b.stage = .broken x) : Looks b now b (some .failed)

/-- A batch whose channel is closed and empty ends. -/
theorem isDue_of_closed {c : Collecting α} (empty : b.queue = []) (closed : b.closed = true) :
    b.isDue now c = true := by
  simp [isDue, empty, closed]

/-- A batch begins if there can be memory for it. -/
theorem looks_start {first : α} {queue : List α} (idle : b.stage = .idle)
    (holds : b.queue = first :: queue) :
    Looks b now ({ b with queue }.start now first).1 ({ b with queue }.start now first).2 := by
  unfold start
  rw [adapt_withQueue]
  dsimp only
  split
  · next fits => exact .begins idle holds (adapt_width (b := b) ▸ fits)
  · next unfit => exact .breaks idle holds (adapt_width (b := b) ▸ Bool.eq_false_iff.mpr unfit)

/-- **A step of a look** does one of seven things. -/
theorem looks (b : Batcher α) (now : Nat) : Looks b now (b.look now).1 (b.look now).2 := by
  unfold look
  split
  · next idle empty =>
    cases closed : b.closed with
    | false => exact .waits (by simp [idle]) (by simp [idle]) empty closed
    | true => exact .stops idle empty closed
  · next first queue idle holds => exact looks_start idle holds
  · next c has =>
    cases due : b.isDue now c with
    | true => exact .ends has due
    | false =>
      rw [if_neg Bool.false_ne_true]
      split
      · next empty =>
        have opened : b.closed = false := by
          cases closed : b.closed with
          | false => rfl
          | true => exact (isDue_of_closed empty closed).symm.trans due
        refine .waits (by simp [has]) ?_ empty opened
        intro c' has'
        obtain rfl := Stage.filling.inj (has.symm.trans has')
        exact due
      · next item queue holds => exact .takes has due holds
  · next x was => exact .broken was

namespace Looks

variable {b' : Batcher α} {r? : Option (Progress α)} (h : Looks b now b' r?)
include h

/-- **A step keeps the items**, each once and in order. -/
theorem items_eq : Progress.items r? ++ b'.items = b.items := by
  cases h with
  | begins idle holds | breaks idle holds =>
    simp [items, Progress.items, Stage.items, Collecting.items, idle, holds]
  | takes has open_ holds =>
    simp [items, Progress.items, Stage.items, Collecting.items, Collecting.take, has, holds]
  | ends has due => simp [items, Progress.items, Stage.items, finish, has]
  | stops | waits | broken => rfl

theorem closed_eq : b'.closed = b.closed := by
  cases h with
  | begins | breaks => exact adapt_closed
  | takes | ends | stops | waits | broken => rfl

/-- **In a closed channel** there is nothing to wait for. -/
theorem settled (closed : b.closed = true) : r? ≠ some .pending := by
  cases h with
  | waits whole early empty opened => exact absurd (opened.symm.trans closed) Bool.false_ne_true
  | begins | breaks | takes | ends | stops | broken => exact nofun

omit h in
/-- A batch has an item. -/
theorem ne_nil {items : List α} (h : Looks b now b' (some (.batch items))) : items ≠ [] := by
  cases h with
  | ends => exact List.cons_ne_nil _ _

end Looks

end Batcher

end ChangeRelay.Batching
