import ChangeRelay.Proofs.Host.History
import Mathlib.Data.List.Perm.Subperm

/-!
# How many requests a host works on

A host has as many slots as it has workers, and at least one. No way of leaving it loses a slot or
makes one: not a wait that is over, not a call that is dropped while it waits, after it was handed a
slot or at work, and not a shutdown. Slots are the permits of a `WorkerPool`.

* **`capacity_of_run`**: at every moment of every run the slots that are free, handed over or held
  are all there are, so no more calls are at work than there are workers.

A slot is held by a call that is at work, but for requests that ask to keep one; `Employed` carries
that along a run.
-/

namespace ChangeRelay.Host

/-- The calls that are in the dispatcher or in the reaction handler. -/
def State.inside (st : State) : List CallId :=
  st.dispatch.calls.keys ++ st.reaction.deliveries.keys

/-- Nobody asks for a slot just to keep it. -/
def NoneKept (ms : List Moment) : Prop := ∀ m ∈ ms, ∀ id, m.label ≠ .request id .keep

/-- The slots of a host are all there, and bound what it works on. -/
structure WithinCapacity (s : Settings) (ms : List Moment) (st : State) : Prop where
  /-- A slot that was handed to who waits for it counts as held. -/
  conserved : st.pool.available + (st.pool.handed.length + st.pool.holders.length) =
    max s.workers 1
  /-- Whoever is at work has a slot of its own. -/
  inside : st.inside.Nodup ∧ ∀ id ∈ st.inside, id ∈ st.pool.holders
  /-- No slot is held by a call that is at its end. -/
  employed : NoneKept ms → ∀ id ∈ st.pool.holders, id ∈ st.inside
  bound : st.dispatch.calls.size + st.reaction.deliveries.size ≤ max s.workers 1
  idle : (∀ id, st.contains id = false) → st.pool.available = max s.workers 1

variable {s : Settings} {st st' : State} {l : Label} {es : List Effect} {id : CallId}
variable {ms : List Moment}

theorem mem_inside : id ∈ st.inside ↔
    st.dispatch.calls.contains id = true ∨ st.reaction.deliveries.contains id = true := by
  rw [State.inside, List.mem_append, Table.mem_keys_iff, Table.mem_keys_iff]
  rfl

theorem length_inside (st : State) :
    st.inside.length = st.dispatch.calls.size + st.reaction.deliveries.size := by
  simp [State.inside, Table.size, Table.keys]

theorem nodup_inside (sound : st.Sound) : st.inside.Nodup := by
  refine List.nodup_append.mpr ⟨st.dispatch.calls.nodup, st.reaction.deliveries.nodup, ?_⟩
  rintro id calls _ deliveries rfl
  have busy := (Dispatch.contains_iff_mem_keys _ _).mpr calls
  have busy' := (Dispatch.contains_iff_mem_keys _ _).mpr deliveries
  exact absurd ((sound.apart id busy).symm.trans busy') Bool.false_ne_true

theorem holder_of_inside (sound : st.Sound) (h : id ∈ st.inside) : id ∈ st.pool.holders := by
  rw [← Pool.standing_eq_holding_iff sound.pool]
  rcases mem_inside.mp h with busy | busy
  · exact sound.calls id busy
  · exact sound.deliveries id busy

/-! ## Slots at work -/

/-- Every slot that is held, or will be, is for a call at work. -/
structure Employed (st : State) : Prop where
  wanted : ∀ id, st.waiting.get? id ≠ some .keep
  inside : ∀ id, st.pool.standing id = .holding → id ∈ st.inside

theorem employed_start (s : Settings) : Employed (.start s) where
  wanted := fun _ => by simp [State.start]
  inside := fun id holds => by
    have away : (State.start s).pool.standing id = .away := Pool.standing_ofWorkers _ _ id
    exact absurd (away.symm.trans holds) (by simp)

/-- What a step leaves of its request, if nobody asks for a slot just to keep it. -/
theorem Move.employed (employed : Employed st) {left : Left} (m : Move s st l id left es)
    (wanted : ∀ id, l ≠ .request id .keep) :
    left.work? ≠ some .keep ∧
      (left.place = .holding → left.dispatch.calls.contains id = true ∨
        left.reaction.deliveries.contains id = true) := by
  cases m with
  | turnAway _ _ => exact ⟨by simp [State.left], by simp [State.left]⟩
  | @queue id work _ _ _ =>
    refine ⟨?_, by simp [State.left]⟩
    intro same
    exact wanted id (congrArg (Label.request id) (Option.some.inj same))
  | keep gets =>
    cases gets with
    | atOnce _ _ => exact absurd rfl (wanted _)
    | called _ _ waits => exact absurd waits (employed.wanted _)
  | dispatch _ _ => exact ⟨by simp, fun holds => .inl ((ofBusy_iff _).mp holds)⟩
  | reaction _ _ => exact ⟨by simp, fun holds => .inr ((ofBusy_iff _).mp holds)⟩
  | tooLong _ _ => exact ⟨by simp [State.left], by simp [State.left]⟩
  | tooLate _ _ => exact ⟨by simp [State.left], by simp [State.left]⟩
  | giveBack _ => exact ⟨by simp [State.left], by simp [State.left]⟩
  | leave _ _ _ => exact ⟨by simp [State.left], by simp [State.left]⟩

theorem Employed.step (employed : Employed st) (sound : st.Sound)
    (h : Host.step s st l = some (st', es)) (wanted : ∀ id, l ≠ .request id .keep) :
    Employed st' := by
  rcases step_move sound h with ⟨-, rfl, -⟩ | ⟨id, left, -, m, after⟩
  · exact ⟨employed.wanted, employed.inside⟩
  · have fits := m.fits sound
    obtain ⟨work, place⟩ := m.employed employed wanted
    constructor
    · intro id'
      rw [after.waiting]
      by_cases same : id' = id
      · rwa [if_pos same]
      · rw [if_neg same]
        exact employed.wanted id'
    · intro id' holds
      rw [mem_inside, after.dispatch, after.reaction]
      by_cases same : id' = id
      · subst same
        exact place (after.pool.2.symm.trans holds)
      · rw [fits.otherCalls id' same, fits.otherDeliveries id' same, ← mem_inside]
        exact employed.inside id' ((after.pool.1.others id' same).symm.trans holds)

theorem employed_of_run (run : Run s ms st) (none : NoneKept ms) : Employed st := by
  induction run with
  | stop => exact employed_start s
  | next steps h ih =>
    have before := ih fun m hm => none m (List.mem_append_left _ hm)
    have wanted := none _ (List.mem_append_right _ (List.mem_singleton_self _))
    exact before.step (sound_of_run steps) h wanted

/-! ## The slots of a run -/

/-- **The slots of a host are all there at every moment**, and bound what it works on, whatever its
requests do. -/
theorem capacity_of_run (run : Run s ms st) : WithinCapacity s ms st := by
  have sound := sound_of_run run
  have conserved : st.pool.available + (st.pool.handed.length + st.pool.holders.length) =
      max s.workers 1 := by
    have slots : st.pool.slots = st.pool.workers := sound.pool.conserved
    rw [workers_of_run run, Pool.slots, Nat.add_assoc] at slots
    exact slots
  have nodup := nodup_inside sound
  have holders : st.inside ⊆ st.pool.holders := fun _ h => holder_of_inside sound h
  constructor
  · exact conserved
  · exact ⟨nodup, fun _ h => holders h⟩
  · intro none id holder
    have holds := (Pool.standing_eq_holding_iff sound.pool).mpr holder
    exact (employed_of_run run none).inside id holds
  · have fewer := (List.subperm_of_subset nodup holders).length_le
    rw [length_inside] at fewer
    omega
  · intro away
    have nobody : ∀ id, id ∉ st.pool.everybody := fun id =>
      Pool.standing_eq_away_iff.mp (gone_iff.mp (away id))
    have handed : st.pool.handed = [] := List.eq_nil_iff_forall_not_mem.mpr fun id h =>
      nobody id (List.mem_append_left _ (List.mem_append_right _ h))
    have none : st.pool.holders = [] := List.eq_nil_iff_forall_not_mem.mpr fun id h =>
      nobody id (List.mem_append_right _ h)
    rw [handed, none] at conserved
    exact conserved

/-- The sample: its one slot is held at work, and free again in the end. -/
theorem capacity_sample : ∃ ms ms' st st',
    play OneSlot.settings (OneSlot.labels.take 11) = some (ms, st) ∧ st.pool.holders = [3] ∧
    play OneSlot.settings OneSlot.labels = some (ms', st') ∧ st'.pool.available = 1 ∧
    WithinCapacity OneSlot.settings ms st ∧ WithinCapacity OneSlot.settings ms' st' := by
  have played : (play OneSlot.settings (OneSlot.labels.take 11)).map (fun r => r.2.pool.holders) =
      some [3] := by
    decide +kernel
  have played' : (play OneSlot.settings OneSlot.labels).map (fun r => r.2.pool.available) =
      some 1 := by
    decide +kernel
  obtain ⟨⟨ms, st⟩, h, holders⟩ := Option.map_eq_some_iff.mp played
  obtain ⟨⟨ms', st'⟩, h', available⟩ := Option.map_eq_some_iff.mp played'
  exact ⟨ms, ms', st, st', h, holders, h', available, capacity_of_run (run_of_play h),
    capacity_of_run (run_of_play h')⟩

end ChangeRelay.Host
