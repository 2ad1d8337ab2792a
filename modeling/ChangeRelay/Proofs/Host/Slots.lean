import ChangeRelay.Pool
import Mathlib.Data.List.Nodup

/-!
# Where a call stands with a pool

A call waits for a slot, holds one, or has nothing to do with the pool. An operation of a pool
changes that for one call: `Pool.Moves` says that every other call stands where it stood, that no
slot is lost or made, and that nobody stands in two places.

* **`acquire_moves`**, **`release_moves`**, **`leave_moves`**, **`resume_moves`**,
  **`expire_moves`**: what each operation does to the one call.

Nothing behind this module opens the definition of an operation.
-/

namespace ChangeRelay

/-- Where a call stands with a pool. -/
inductive Standing
  | away
  /-- It waits for a slot, or was handed one and has not noticed. -/
  | waiting
  | holding
deriving DecidableEq, Repr

/-- Where a call stands that has its slot, and gives it back at its end. -/
def Standing.ofBusy (busy : Bool) : Standing := if busy then .holding else .away

namespace Pool

/-- Where a call stands. -/
def standing (p : Pool) (id : CallId) : Standing :=
  if id ∈ p.line ∨ id ∈ p.handed then .waiting
  else if id ∈ p.holders then .holding
  else .away

/-- Everybody who stands somewhere. -/
def everybody (p : Pool) : List CallId := p.line ++ p.handed ++ p.holders

/-- No slot is lost or made, and nobody stands in two places. -/
structure Sound (p : Pool) : Prop where
  conserved : p.Conserved
  nodup : p.everybody.Nodup

/-- `p'` is `p` but for where the call `id` stands. -/
structure Moves (p : Pool) (id : CallId) (p' : Pool) : Prop where
  sound : p'.Sound
  workers : p'.workers = p.workers
  closed : p'.closed = p.closed
  others : ∀ id', id' ≠ id → p'.standing id' = p.standing id'

variable {p p' p'' : Pool} {id : CallId}

/-! ## Standing -/

theorem standing_eq_waiting_iff : p.standing id = .waiting ↔ id ∈ p.line ∨ id ∈ p.handed := by
  unfold standing
  split
  · next h => simp [h]
  · next h =>
    split
    · simp [h]
    · simp [h]

theorem standing_eq_away_iff : p.standing id = .away ↔ id ∉ p.everybody := by
  unfold standing everybody
  rw [List.mem_append, List.mem_append]
  by_cases waits : id ∈ p.line ∨ id ∈ p.handed
  · simp [waits]
  · by_cases holds : id ∈ p.holders
    · simp [waits, holds]
    · simp [waits, holds]

theorem not_waiting_of_holder (sound : p.Sound) (h : id ∈ p.holders) :
    id ∉ p.line ∧ id ∉ p.handed := by
  have apart := (List.nodup_append.mp sound.nodup).2.2
  refine ⟨fun hl => ?_, fun hh => ?_⟩
  · exact apart id (List.mem_append_left _ hl) id h rfl
  · exact apart id (List.mem_append_right _ hh) id h rfl

theorem standing_eq_holding_iff (sound : p.Sound) :
    p.standing id = .holding ↔ id ∈ p.holders := by
  unfold standing
  constructor
  · intro h
    split at h
    · exact absurd h (by simp)
    · split at h
      · assumption
      · exact absurd h (by simp)
  · intro h
    obtain ⟨line, handed⟩ := not_waiting_of_holder sound h
    rw [if_neg (by simp [line, handed]), if_pos h]

/-- Where a call stands is seen in two places. -/
theorem standing_congr (waits : (id ∈ p'.line ∨ id ∈ p'.handed) ↔ (id ∈ p.line ∨ id ∈ p.handed))
    (holds : id ∈ p'.holders ↔ id ∈ p.holders) : p'.standing id = p.standing id := by
  unfold standing
  rw [if_congr waits rfl (if_congr holds rfl rfl)]

theorem standing_ofWorkers (workers : Nat) (wait : Duration) (id : CallId) :
    (ofWorkers workers wait).standing id = .away := by
  simp [standing, ofWorkers]

theorem sound_ofWorkers (workers : Nat) (wait : Duration) : (ofWorkers workers wait).Sound :=
  ⟨conserved_ofWorkers workers wait, by simp [everybody, ofWorkers]⟩

namespace Moves

theorem refl (sound : p.Sound) (id : CallId) : p.Moves id p :=
  ⟨sound, rfl, rfl, fun _ _ => rfl⟩

theorem trans (m : p.Moves id p') (m' : p'.Moves id p'') : p.Moves id p'' where
  sound := m'.sound
  workers := m'.workers.trans m.workers
  closed := m'.closed.trans m.closed
  others := fun id' hid => (m'.others id' hid).trans (m.others id' hid)

end Moves

/-! ## Handing on -/

theorem handOn_perm (p : Pool) : p.handOn.1.everybody.Perm p.everybody := by
  unfold handOn
  split
  · next next line _ hl =>
    simp only [everybody, hl]
    calc line ++ (p.handed ++ [next]) ++ p.holders
      _ = line ++ p.handed ++ next :: p.holders := by simp
      List.Perm _ (next :: (line ++ p.handed ++ p.holders)) := List.perm_middle
      _ = next :: line ++ p.handed ++ p.holders := rfl
  · exact .refl _

theorem standing_handOn (p : Pool) (id : CallId) : p.handOn.1.standing id = p.standing id := by
  unfold handOn
  split
  · next next line _ hl =>
    refine standing_congr ?_ .rfl
    simp only [hl, List.mem_append, List.mem_cons, List.not_mem_nil, or_false]
    tauto
  · rfl

theorem workers_handOn (p : Pool) : p.handOn.1.workers = p.workers := by
  unfold handOn
  split <;> rfl

theorem closed_handOn (p : Pool) : p.handOn.1.closed = p.closed := by
  unfold handOn
  split <;> rfl

/-- A pool that is short of the slot of `id` is sound once it has handed it on. -/
theorem moves_handOn (sound : p.Sound) (workers : p'.workers = p.workers)
    (closed : p'.closed = p.closed) (slots : p'.slots + 1 = p.slots)
    (sub : p'.everybody.Sublist p.everybody)
    (others : ∀ id', id' ≠ id → p'.standing id' = p.standing id') : p.Moves id p'.handOn.1 where
  sound := by
    refine ⟨?_, (handOn_perm p').nodup_iff.mpr (sub.nodup sound.nodup)⟩
    have conserved : p.slots = p.workers := sound.conserved
    unfold Conserved
    rw [slots_handOn, workers_handOn, workers, slots, conserved]
  workers := (workers_handOn p').trans workers
  closed := (closed_handOn p').trans closed
  others := fun id' hid => (standing_handOn p' id').trans (others id' hid)

/-! ## The operations -/

/-- `p'` is `p` but for where the call `id` stands, and it stands there. -/
def Puts (p : Pool) (id : CallId) (place : Standing) (p' : Pool) : Prop :=
  p.Moves id p' ∧ p'.standing id = place

section

variable (sound : p.Sound)
include sound

theorem puts_refl (id : CallId) : p.Puts id (p.standing id) p := ⟨.refl sound id, rfl⟩

theorem moves_grant (free : p.standing id = .away) (room : 0 < p.available) :
    p.Puts id .holding
      { p with available := p.available - 1, holders := p.holders ++ [id] } := by
  have fresh := standing_eq_away_iff.mp free
  have conserved : p.slots = p.workers := sound.conserved
  have nodup : (p.everybody ++ [id]).Nodup :=
    List.nodup_append.mpr ⟨sound.nodup, by simp, by rintro a ha b hb rfl; simp_all⟩
  have sound' : Sound { p with available := p.available - 1, holders := p.holders ++ [id] } := by
    refine ⟨?_, by simpa [everybody] using nodup⟩
    simp only [slots, Conserved, List.length_append, List.length_singleton] at conserved ⊢
    omega
  refine ⟨⟨sound', rfl, rfl, fun id' hid => standing_congr .rfl ?_⟩, ?_⟩
  · simp [hid]
  · exact (standing_eq_holding_iff sound').mpr (by simp)

theorem moves_enqueue (free : p.standing id = .away) :
    p.Puts id .waiting { p with line := p.line ++ [id] } := by
  have fresh := standing_eq_away_iff.mp free
  have nodup : (id :: p.everybody).Nodup := List.nodup_cons.mpr ⟨fresh, sound.nodup⟩
  have perm : (p.line ++ [id] ++ p.handed ++ p.holders).Perm (id :: p.everybody) := by
    calc p.line ++ [id] ++ p.handed ++ p.holders
      _ = p.line ++ id :: (p.handed ++ p.holders) := by simp
      List.Perm _ (id :: (p.line ++ (p.handed ++ p.holders))) := List.perm_middle
      _ = id :: p.everybody := by rw [everybody, List.append_assoc]
  refine ⟨⟨⟨sound.conserved, perm.nodup_iff.mpr nodup⟩, rfl, rfl, fun id' hid => ?_⟩, ?_⟩
  · refine standing_congr ?_ .rfl
    simp [hid]
  · exact standing_eq_waiting_iff.mpr (.inl (by simp))

/-- **A call that asks for a slot** is refused, gets one, or waits for one. -/
theorem acquire_moves (free : p.standing id = .away) :
    p.closed = true ∧ p.acquire id = (p, .refused .closed) ∨
    p.closed = false ∧ 0 < p.available ∧
      (∃ p', p.acquire id = (p', .granted) ∧ p.Puts id .holding p') ∨
    p.closed = false ∧ p.available = 0 ∧
      ∃ p', p.acquire id = (p', .queued) ∧ p.Puts id .waiting p' := by
  unfold acquire
  cases closed : p.closed with
  | true => exact .inl ⟨rfl, by simp⟩
  | false =>
    by_cases room : 0 < p.available
    · refine .inr (.inl ⟨rfl, room, ?_⟩)
      simp only [Bool.false_eq_true, if_false, if_pos room]
      exact ⟨_, rfl, closed ▸ moves_grant sound free room⟩
    · refine .inr (.inr ⟨rfl, by omega, ?_⟩)
      simp only [Bool.false_eq_true, if_false, if_neg room]
      exact ⟨_, rfl, closed ▸ moves_enqueue sound free⟩

/-- **A slot that is given back** goes to the first in line. -/
theorem release_moves (holds : p.standing id = .holding) :
    p.Puts id .away (p.release id).1 := by
  have holder := (standing_eq_holding_iff sound).mp holds
  obtain ⟨line, handed⟩ := not_waiting_of_holder sound holder
  have gone : id ∉ p.holders.erase id := (List.nodup_append.mp sound.nodup).2.1.not_mem_erase
  unfold release
  rw [if_pos holder]
  refine ⟨moves_handOn sound rfl rfl ?_ ?_ fun id' hid => ?_, ?_⟩
  · have := List.length_pos_of_mem holder
    simp only [slots, List.length_erase_of_mem holder]
    omega
  · exact List.erase_sublist.append_left _
  · exact standing_congr .rfl (List.mem_erase_of_ne hid)
  · rw [standing_handOn]
    simp [standing, line, handed, gone]

theorem moves_unline (inLine : id ∈ p.line) :
    p.Puts id .away { p with line := p.line.erase id } := by
  have nodup := sound.nodup
  simp only [everybody, List.append_assoc] at nodup
  have apart := (List.nodup_append.mp nodup).2.2 id inLine
  have gone : id ∉ p.line.erase id := (List.nodup_append.mp nodup).1.not_mem_erase
  have sub : (p.line.erase id ++ p.handed ++ p.holders).Sublist p.everybody :=
    (List.erase_sublist.append_right _).append_right _
  refine ⟨⟨⟨sound.conserved, sub.nodup sound.nodup⟩, rfl, rfl, fun id' hid => ?_⟩, ?_⟩
  · exact standing_congr (or_congr (List.mem_erase_of_ne hid) .rfl) .rfl
  · have handed : id ∉ p.handed := fun h => apart id (List.mem_append_left _ h) rfl
    have holders : id ∉ p.holders := fun h => apart id (List.mem_append_right _ h) rfl
    simp [standing, gone, handed, holders]

theorem not_held_of_handed (h : id ∈ p.handed) : id ∉ p.line ∧ id ∉ p.holders := by
  have parts := List.nodup_append.mp sound.nodup
  refine ⟨fun hl => ?_, fun hh => ?_⟩
  · exact (List.nodup_append.mp parts.1).2.2 id hl id h rfl
  · exact parts.2.2 id (List.mem_append_right _ h) id hh rfl

theorem not_mem_erase_handed : id ∉ p.handed.erase id :=
  (List.nodup_append.mp (List.nodup_append.mp sound.nodup).1).2.1.not_mem_erase

theorem moves_unhand (handed : id ∈ p.handed) :
    p.Puts id .away { p with handed := p.handed.erase id }.handOn.1 := by
  obtain ⟨line, holders⟩ := not_held_of_handed sound handed
  have gone : id ∉ p.handed.erase id := not_mem_erase_handed sound
  refine ⟨moves_handOn sound rfl rfl ?_ ?_ fun id' hid => ?_, ?_⟩
  · have := List.length_pos_of_mem handed
    simp only [slots, List.length_erase_of_mem handed]
    omega
  · exact (List.erase_sublist.append_left _).append_right _
  · exact standing_congr (or_congr .rfl (List.mem_erase_of_ne hid)) .rfl
  · rw [standing_handOn]
    simp [standing, line, holders, gone]

/-- **A call that gives up** on a slot is away, wherever it stood. -/
theorem leave_moves (there : p.standing id ≠ .away) : p.Puts id .away (p.leave id).1 := by
  unfold leave
  split
  · next inLine => exact moves_unline sound inLine
  · next notInLine =>
    split
    · next handed => exact moves_unhand sound handed
    · next notHanded =>
      refine release_moves sound ((standing_eq_holding_iff sound).mpr ?_)
      have mem := not_not.mp (mt standing_eq_away_iff.mpr there)
      simpa [everybody, notInLine, notHanded] using mem

theorem moves_take (handed : id ∈ p.handed) :
    p.Puts id .holding
      { p with handed := p.handed.erase id, holders := p.holders ++ [id] } := by
  obtain ⟨line, holders⟩ := not_held_of_handed sound handed
  have gone : id ∉ p.handed.erase id := not_mem_erase_handed sound
  have conserved : p.slots = p.workers := sound.conserved
  have perm : (p.line ++ p.handed.erase id ++ (p.holders ++ [id])).Perm p.everybody := by
    calc p.line ++ p.handed.erase id ++ (p.holders ++ [id])
      _ = p.line ++ (p.handed.erase id ++ p.holders ++ [id]) := by simp
      List.Perm _ (p.line ++ (id :: (p.handed.erase id ++ p.holders))) :=
        (List.perm_append_singleton _ _).append_left _
      List.Perm _ (p.line ++ (p.handed ++ p.holders)) :=
        (((List.perm_cons_erase handed).symm.append_right _).append_left _)
      _ = p.everybody := by rw [everybody, List.append_assoc]
  have sound' : Sound
      { p with handed := p.handed.erase id, holders := p.holders ++ [id] } := by
    refine ⟨?_, perm.nodup_iff.mpr sound.nodup⟩
    have := List.length_pos_of_mem handed
    simp only [slots, Conserved, List.length_append, List.length_singleton,
      List.length_erase_of_mem handed] at conserved ⊢
    omega
  refine ⟨⟨sound', rfl, rfl, fun id' hid => ?_⟩, ?_⟩
  · exact standing_congr (or_congr .rfl (List.mem_erase_of_ne hid)) (by simp [hid])
  · exact (standing_eq_holding_iff sound').mpr (by simp)

/-- **A call that has waited** is refused where the pool is closed, and else takes the slot that it
was handed. -/
theorem resume_moves {r : (Pool × Option CallId) × Except Refusal Unit}
    (h : p.resume id = some r) :
    p.closed = true ∧ p.standing id = .waiting ∧ r = (p.leave id, .error .closed) ∨
    p.closed = false ∧ id ∈ p.handed ∧
      ∃ p', r = ((p', none), .ok ()) ∧ p.Puts id .holding p' := by
  unfold resume at h
  split at h
  · next closed =>
    split at h
    · next waits =>
      exact .inl ⟨closed, standing_eq_waiting_iff.mpr waits, (Option.some.inj h).symm⟩
    · exact absurd h (by simp)
  · next opened =>
    split at h
    · next handed =>
      exact .inr ⟨by simpa using opened, handed, _, (Option.some.inj h).symm,
        moves_take sound handed⟩
    · exact absurd h (by simp)

/-- **A call that has waited too long** was in line for an open pool. -/
theorem expire_moves {r : Pool × Refusal} (h : p.expire id = some r) :
    p.closed = false ∧ id ∈ p.line ∧
      ∃ p', r = (p', .busy p.workers p.wait) ∧ p.Puts id .away p' := by
  have ⟨waits, same⟩ := Option.ite_none_right_eq_some.mp h
  have inLine : id ∈ p.line := waits.1
  have opened : (!p.closed) = true := waits.2
  exact ⟨by simpa using opened, inLine, _, (Option.some.inj same).symm, moves_unline sound inLine⟩

end

/-- A call that waits can go on: it is called, or has waited as long as it may. -/
theorem goes_on (waits : p.standing id = .waiting) :
    (p.resume id).isSome = true ∨ (p.expire id).isSome = true := by
  rcases standing_eq_waiting_iff.mp waits with line | handed
  · cases closed : p.closed with
    | true => exact .inl (by simp [resume, closed, line])
    | false => exact .inr (by simp [expire, closed, line])
  · left
    cases closed : p.closed <;> simp [resume, closed, handed]

end Pool

end ChangeRelay
