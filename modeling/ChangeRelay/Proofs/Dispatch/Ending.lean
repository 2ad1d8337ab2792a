import ChangeRelay.Proofs.Dispatch.Move

/-!
# How the calls of a dispatcher end

* **`step_ending`**: a call goes on, is dropped, or is told something and is over.
* `drop_step`: a call can be dropped as long as it is in progress.
-/

namespace ChangeRelay.Dispatch

/-- Who is told something, and what. -/
def Effect.told? : Effect → Option (CallId × DispatchReply)
  | .reply id r => some (id, r)
  | _ => none

def Label.isDrop : Label → Bool
  | .drop _ => true
  | _ => false

theorem told_wakes (line : List CallId) (id : CallId) :
    (wakes line id).filterMap Effect.told? = [] := by
  unfold wakes
  split
  · cases (line.erase id).head? <;> rfl
  · rfl

theorem told_lines {α : Type} (xs : List α) (line : α → Log.Line) :
    (xs.map fun x => Effect.log (line x)).filterMap Effect.told? = [] := by
  rw [List.filterMap_map]
  exact List.filterMap_eq_nil_iff.mpr fun _ _ => rfl

theorem told_emptyLines (r : Request) : (emptyLines r).filterMap Effect.told? = [] := by
  cases r <;> rfl

theorem told_arrivalLines (r : Request) : (arrivalLines r).filterMap Effect.told? = [] := by
  cases r <;> rfl

/-- A call at work is answered at its end. -/
theorem told_effects (h : Halted) (id : CallId) (line : List CallId) :
    (h.effects id line).filterMap Effect.told? = match h.halt with
      | .offer _ => []
      | .done => [(id, h.walk.tally.reply)] := by
  rw [Halted.effects, List.filterMap_append, told_lines, List.nil_append]
  cases h.halt with
  | offer event => rfl
  | done =>
    simp only [List.filterMap_append, told_wakes, List.nil_append]
    rfl

theorem Halted.told_mem {h : Halted} {id : CallId} {line : List CallId} {a : CallId × DispatchReply}
    (ha : a ∈ (h.effects id line).filterMap Effect.told?) :
    h.halt = .done ∧ a = (id, h.walk.tally.reply) := by
  rw [told_effects] at ha
  cases halt : h.halt with
  | offer event => rw [halt] at ha; exact absurd ha List.not_mem_nil
  | done => rw [halt] at ha; exact ⟨rfl, List.mem_singleton.mp ha⟩

theorem Works.told {s : Settings} {st : State} {id : CallId} {call : Call} {l : Label}
    {last? : Option UInt64} {h : Halted} (works : Works s st id call l last? h)
    (line : List CallId) :
    Ending l.id h.call?.isSome l.isDrop ((h.effects id line).filterMap Effect.told?) := by
  have named : l.id = id ∧ l.isDrop = false := by cases works <;> exact ⟨rfl, rfl⟩
  rw [named.1, named.2, told_effects, Halted.call?]
  cases h.halt with
  | offer event => exact .goesOn
  | done => exact .told h.walk.tally.reply

theorem Move.ending {s : Settings} {st : State} {l : Label} {left : Left} {es : List Effect}
    (m : Move s st l left es) :
    Ending l.id left.call?.isSome l.isDrop (es.filterMap Effect.told?) := by
  cases m with
  | empty free none =>
    rw [List.filterMap_append, told_emptyLines]
    exact .told emptyReply
  | sourceless _ _ _ => exact .told (refusal .emptySource)
  | arrive _ _ _ =>
    rw [told_arrivalLines]
    exact .goesOn
  | find _ _ _ => exact .goesOn
  | @refuse id call _ _ _ _ => exact .told (refusal (.sourceLimit call.walk.source s.maxStreams))
  | join _ _ => exact .goesOn
  | work _ works => exact works.told _
  | drop _ =>
    rw [told_wakes]
    exact .dropped

/-- **A call of the dispatcher** goes on, is dropped, or is told something and is over. -/
theorem step_ending {s : Settings} {st st' : State} {l : Label} {es : List Effect}
    (h : step s st l = some (st', es)) :
    Ending l.id (st'.calls.contains l.id) l.isDrop (es.filterMap Effect.told?) := by
  obtain ⟨left, m, after⟩ := step_move h
  rw [Table.contains, after.calls, if_pos rfl]
  exact m.ending

/-- Nobody is told of a drop, and there is none where there is no call. -/
theorem drop_step (s : Settings) (st : State) (id : CallId) :
    st.calls.contains id = false ∧ step s st (.drop id) = none ∨
    st.calls.contains id = true ∧ ∃ st' es, step s st (.drop id) = some (st', es) ∧
      st'.calls.contains id = false ∧ es.filterMap Effect.told? = [] := by
  unfold Table.contains
  cases at_ : st.calls.get? id with
  | none => exact .inl ⟨rfl, by simp [step, at_]⟩
  | some call =>
    have h : step s st (.drop id) = some (st.close call.walk.source id) := by simp [step, at_]
    exact .inr ⟨rfl, _, _, h, (step_ending h).of_dropped⟩

end ChangeRelay.Dispatch
