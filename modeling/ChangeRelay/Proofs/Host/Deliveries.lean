import ChangeRelay.Proofs.Host.Course
import ChangeRelay.Proofs.Reaction.Replies

/-!
# An invocation at a host

An invocation is handed to the pipeline at the moment it gets its slot, as it comes out of the
checks, if nothing is known of its id; and what its sender is told is about its id.

* **`apply_of_step`**, **`applies_of_gets`**: when an invocation is handed to the pipeline.
* **`id_of_answers`**: what is told to a sender is about the invocation that was sent.
* **`serves_delivery`**: an invocation that finds a free slot is handed over and answered.
-/

namespace ChangeRelay

/-- The pipeline is handed an invocation. -/
def Reaction.Effect.apply? : Effect → Option (CallId × Invocation)
  | .apply id a => some (id, a)
  | _ => none

theorem Reaction.apply_correlationLines (s : Settings) (a : Invocation) :
    (correlationLines s a).filterMap Effect.apply? = [] := by
  unfold correlationLines
  split
  · rfl
  · split <;> rfl

namespace Host

/-- The pipeline is handed an invocation. -/
def Effect.apply? : Effect → Option (CallId × Invocation)
  | .apply id a => some (id, a)
  | _ => none

variable {s : Settings} {st st' : State} {l : Label} {es : List Effect} {id : CallId}
variable {w : Wire.Invocation} {a : Invocation} {hist : List Moment} {m : Moment}

theorem apply_loud (es : List Effect) :
    (loud es).filterMap Effect.apply? = es.filterMap Effect.apply? := by
  unfold loud
  rw [List.filterMap_filter]
  congr 1
  funext e
  cases e <;> rfl

theorem apply_ofReaction (es : List Reaction.Effect) :
    (es.map Effect.ofReaction).filterMap Effect.apply? =
      es.filterMap Reaction.Effect.apply? := by
  rw [List.filterMap_map]
  congr 1
  funext e
  cases e <;> rfl

theorem apply_not_mem_dispatch (fx : List Dispatch.Effect) (id : CallId) (a : Invocation) :
    .apply id a ∉ loud (fx.map .ofDispatch) := by
  intro applied
  obtain ⟨e, -, he⟩ := List.mem_map.mp (List.mem_filter.mp applied).1
  cases e <;> exact absurd he (by simp [Effect.ofDispatch])

/-- **What is handed to the pipeline** has just got its slot and passed the checks, and nothing was
known of its id. -/
theorem apply_of_step (sound : st.Sound) (h : step s st l = some (st', es))
    (ha : .apply id a ∈ es) : ∃ w, Gets st l id (.handle w) ∧ Reaction.check s.reaction w = .ok a ∧
      st.reaction.window.seen? w.id = none := by
  have ha := (mem_loud (e := .apply id a) rfl).mpr ha
  rcases step_move sound h with ⟨-, -, effects⟩ | ⟨id', left, caller, m, after⟩
  · rw [effects] at ha
    exact absurd ha (by simp)
  generalize loud es = fx at m ha
  cases m with
  | dispatch _ _ => exact absurd ha (apply_not_mem_dispatch _ _ _)
  | reaction is steps =>
    obtain ⟨e, he, same⟩ := List.mem_map.mp (List.mem_filter.mp ha).1
    cases e with
    | apply id'' a' =>
      obtain ⟨rfl, rfl⟩ := Effect.apply.inj same
      obtain ⟨left, m, -⟩ := Reaction.step_move steps
      obtain ⟨w, rfl, good, new⟩ := m.applies he
      cases is with
      | arrive gets => exact ⟨w, gets, good, new⟩
      | own own => exact absurd own (by simp [isOwnDelivery])
    | _ => exact absurd same (by simp [Effect.ofReaction])
  | _ => exact absurd ha (by simp)

/-- What the reaction handler does when an invocation comes in of which nothing is known. -/
theorem arrives_of_gets (sound : st.Sound) (h : step s st l = some (st', es))
    (gets : Gets st l id (.handle w)) (named : w.id ≠ "")
    (new : st.reaction.window.seen? w.id = none) (good : Reaction.check s.reaction w = .ok a) :
    st'.reaction.deliveries.get? id = some ⟨w.id, .applying a⟩ ∧
      loud es = loud ((Reaction.correlationLines s.reaction a ++
        [Reaction.Effect.apply id a]).map .ofReaction) := by
  have label := gets.reaches.2
  rcases (handler s).takes sound h with ⟨none, -⟩ | ⟨l', fx, takes⟩
  · exact absurd (label.symm.trans none) (by simp)
  obtain rfl := Option.some.inj (label.symm.trans takes.label)
  have steps : Reaction.step s.reaction st.reaction (.arrive id w) = some (st'.reaction, fx) :=
    takes.step
  have aside := sound.aside gets.not_holding
  have free : st.reaction.deliveries.get? id = none := Option.not_isSome_iff_eq_none.mp (by
    rw [← Table.contains, aside]
    simp)
  obtain ⟨st₁, h₁, after⟩ := (Reaction.Move.apply free named new good).step
  obtain ⟨rfl, rfl⟩ := Prod.mk.inj (Option.some.inj (steps.symm.trans h₁))
  refine ⟨?_, takes.effects⟩
  rw [after.deliveries]
  exact if_pos rfl

/-- **An invocation of which nothing is known** is handed to the pipeline as it gets its slot. -/
theorem applies_of_gets (sound : st.Sound) (h : step s st l = some (st', es))
    (gets : Gets st l id (.handle w)) (named : w.id ≠ "")
    (new : st.reaction.window.seen? w.id = none) (good : Reaction.check s.reaction w = .ok a) :
    es.filterMap Effect.apply? = [(id, a)] := by
  have effects := (arrives_of_gets sound h gets named new good).2
  rw [← apply_loud, effects, apply_loud, apply_ofReaction, List.filterMap_append,
    Reaction.apply_correlationLines]
  rfl

/-- Only who is in progress takes steps by itself. -/
theorem contains_of_own {l : Reaction.Label} {r : State × List Effect} (sound : st.Sound)
    (h : step s st (.reaction l) = some r) : st.contains l.id = true := by
  obtain ⟨own, h⟩ := Option.ite_none_right_eq_some.mp h
  obtain ⟨r, steps, -⟩ := Option.map_eq_some_iff.mp h
  have busy := (Reaction.contains_before steps).trans (ownDelivery_spec own).1
  exact contains_iff.mpr (by simp [sound.deliveries l.id busy])

/-- **What a sender is told** is about the invocation that it sent. -/
theorem id_of_answers {reply : Reply} (answers : (handler s).Answers hist m id w reply) :
    ∃ r, reply = .invocation r ∧ r.id = w.id := by
  obtain ⟨-, e, effect, yields⟩ := answers
  cases e with
  | reply id' r =>
    obtain ⟨rfl, rfl⟩ := Effect.reply.inj effect
    obtain ⟨h, st, run, -, arrival, he⟩ := yields
    obtain ⟨m', hm, call, he⟩ := Moment.mem_effectsOf.mp he
    obtain ⟨pre, post, split⟩ := List.append_of_mem hm
    obtain ⟨i, arrival', earned⟩ := Reaction.earned_of_run run split he
    rw [call] at arrival'
    obtain ⟨-, rfl⟩ := Prod.mk.inj (Option.some.inj (arrival.symm.trans arrival'))
    exact ⟨r, rfl, earned.id_eq⟩
  | _ => exact absurd effect (by simp [handler, Effect.ofReaction])

/-- **An invocation that finds a free slot**, and of which nothing is known, is handed to the
pipeline, and answered when the pipeline has taken it. -/
theorem serves_delivery (sound : st.Sound) (away : st.contains id = false)
    (slot : st.pool.HasSlot) (named : w.id ≠ "") (new : st.reaction.window.seen? w.id = none)
    (good : Reaction.check s.reaction w = .ok a) : ∃ st₁ es₁ st₂ es₂,
      step s st (.request id (.handle w)) = some (st₁, es₁) ∧
      es₁.filterMap Effect.apply? = [(id, a)] ∧ st₁.contains id = true ∧
      step s st₁ (.reaction (.answer id .taken)) = some (st₂, es₂) ∧
      es₂.filterMap Effect.told? = [(id, .invocation (Reaction.appliedReply a))] := by
  have comes : (step s st (.request id (.handle w))).isSome = true := by
    rw [step, away]
    rfl
  obtain ⟨⟨st₁, es₁⟩, h⟩ := Option.isSome_iff_exists.mp comes
  have gets : Gets st (.request id (.handle w)) id (.handle w) := .atOnce (gone_iff.mp away) slot
  obtain ⟨at_, -⟩ := arrives_of_gets sound h gets named new good
  have handed := applies_of_gets sound h gets named new good
  have busy : st₁.reaction.deliveries.contains id = true := by
    rw [Table.contains, at_]
    rfl
  have holds := (sound.step h).deliveries id busy
  obtain ⟨r', h', -⟩ := (Reaction.Move.complete (s := s.reaction) at_).step
  refine ⟨st₁, es₁, _, _, h, handed, contains_iff.mpr (by simp [holds]), step_reaction rfl h', ?_⟩
  rw [← told_loud, reacted_eq, loud_settle, told_loud, told_ofReaction, Reaction.told_last]
  · rfl
  · rw [List.filterMap_append, Reaction.told_wakes, Reaction.told_stops]
    rfl

end Host

end ChangeRelay
