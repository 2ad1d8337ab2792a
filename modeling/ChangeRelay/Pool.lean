import ChangeRelay.CallId
import ChangeRelay.Time

/-!
# The pool of workers

A fixed number of slots, each good for one request at a time. Who finds no free slot waits in line
and gets the slots that are given back in turn, until it has waited as long as it may or the pool is
closed. A slot that has been handed to a waiter belongs to it even before the waiter has noticed.

Model of `WorkerPool`, with `available` and `close`. Its `acquire` is in parts here, before its wait
and behind it, and `Refusal` is `PoolError`.
-/

namespace ChangeRelay

/-- Slots and those who hold or want one. -/
structure Pool where
  /-- The number of slots. -/
  workers : Nat
  /-- How long to wait for a slot. -/
  wait : Duration
  /-- The number of free slots. -/
  available : Nat
  /-- Who waits for a slot, the longest first. -/
  line : List CallId
  /-- Who waited and was handed a slot, but has not noticed. -/
  handed : List CallId
  /-- Who has a slot. -/
  holders : List CallId
  closed : Bool
deriving DecidableEq, Repr

namespace Pool

/-- Why there is no slot. -/
inductive Refusal
  | busy (workers : Nat) (waited : Duration)
  | closed
deriving DecidableEq, Repr, Inhabited

/-- The wording of a refusal. -/
def Refusal.message : Refusal → String
  | .busy workers waited => "all " ++ decimal workers ++ " workers busy for " ++ waited.text
  | .closed => "worker pool closed"

/-- A pool with every slot free; it has at least one. -/
def ofWorkers (workers : Nat) (wait : Duration) : Pool :=
  { workers := max workers 1
    wait
    available := max workers 1
    line := []
    handed := []
    holders := []
    closed := false }

instance : Inhabited Pool := ⟨ofWorkers 1 0⟩

/-- What is said at once to who asks for a slot. -/
inductive Answer
  | granted
  | refused (refusal : Refusal)
  /-- It has to wait. -/
  | queued
deriving DecidableEq, Repr, Inhabited

/-- Asks for a slot. -/
def acquire (p : Pool) (id : CallId) : Pool × Answer :=
  if p.closed then (p, .refused .closed)
  else if 0 < p.available then
    ({ p with available := p.available - 1, holders := p.holders ++ [id] }, .granted)
  else ({ p with line := p.line ++ [id] }, .queued)

/-- Gives a slot to the first in line, who is then named, or puts it back. -/
def handOn (p : Pool) : Pool × Option CallId :=
  match p.closed, p.line with
  | false, next :: line => ({ p with line, handed := p.handed ++ [next] }, some next)
  | _, _ => ({ p with available := p.available + 1 }, none)

/-- Gives back a slot. -/
def release (p : Pool) (id : CallId) : Pool × Option CallId :=
  if id ∈ p.holders then { p with holders := p.holders.erase id }.handOn else (p, none)

/-- Gives up on a slot, whether it is waited for, handed over or held. -/
def leave (p : Pool) (id : CallId) : Pool × Option CallId :=
  if id ∈ p.line then ({ p with line := p.line.erase id }, none)
  else if id ∈ p.handed then { p with handed := p.handed.erase id }.handOn
  else p.release id

/-- A waiter looks whether its wait is over: it is when the pool is closed or a slot was handed
over. -/
def resume (p : Pool) (id : CallId) : Option ((Pool × Option CallId) × Except Refusal Unit) :=
  if p.closed then
    if id ∈ p.line ∨ id ∈ p.handed then some (p.leave id, .error .closed) else none
  else if id ∈ p.handed then
    some (({ p with handed := p.handed.erase id, holders := p.holders ++ [id] }, none), .ok ())
  else none

/-- A waiter has waited as long as it may. Who is still in line when the pool is closed is refused
for that, however long it has waited. -/
def expire (p : Pool) (id : CallId) : Option (Pool × Refusal) :=
  if id ∈ p.line ∧ !p.closed then
    some ({ p with line := p.line.erase id }, .busy p.workers p.wait)
  else none

/-- Refuses every slot from now on; those who have one keep it. -/
def close (p : Pool) : Pool := { p with closed := true }

/-! ## Conservation -/

/-- Slots that are free, handed over or held. -/
def slots (p : Pool) : Nat := p.available + p.handed.length + p.holders.length

/-- Every slot is free, handed over or held. -/
def Conserved (p : Pool) : Prop := p.slots = p.workers

theorem conserved_ofWorkers (workers : Nat) (wait : Duration) :
    (ofWorkers workers wait).Conserved := by
  simp [Conserved, slots, ofWorkers]

theorem slots_handOn (p : Pool) : p.handOn.1.slots = p.slots + 1 := by
  unfold handOn
  split
  · simp [slots]
    omega
  · simp [slots]
    omega

end Pool

end ChangeRelay
