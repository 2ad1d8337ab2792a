import ChangeRelay.Proofs.Reaction.Move

/-!
# How the deliveries to a reaction handler end

* **`step_ending`**: a delivery goes on, is dropped, or is told something and is over.
* `drop_step`: a delivery can be dropped as long as it is in progress.
-/

namespace ChangeRelay.Reaction

/-- Who is told something, and what. -/
def Effect.told? : Effect → Option (CallId × InvocationReply)
  | .reply id r => some (id, r)
  | _ => none

def Label.isDrop : Label → Bool
  | .drop _ => true
  | _ => false

theorem told_wakes (st : State) (id : CallId) : (wakes st id).filterMap Effect.told? = [] := by
  rw [wakes, List.filterMap_map]
  exact List.filterMap_eq_nil_iff.mpr fun _ _ => rfl

theorem told_stops (s : Settings) (n : Nat) : (stops s n).filterMap Effect.told? = [] := by
  unfold stops
  split
  · rfl
  · split <;> rfl

theorem told_correlationLines (s : Settings) (a : Invocation) :
    (correlationLines s a).filterMap Effect.told? = [] := by
  unfold correlationLines
  split
  · rfl
  · split <;> rfl

/-- What a delivery says when it ends, behind what is told to nobody. -/
theorem told_last {es : List Effect} (quiet : es.filterMap Effect.told? = []) (id : CallId)
    (reply : InvocationReply) :
    (es ++ [Effect.reply id reply]).filterMap Effect.told? = [(id, reply)] := by
  rw [List.filterMap_append, quiet]
  rfl

/-- **A delivery** goes on, is dropped, or is told something and is over. -/
theorem step_ending {s : Settings} {st st' : State} {l : Label} {es : List Effect}
    (h : step s st l = some (st', es)) :
    Ending l.id (st'.deliveries.contains l.id) l.isDrop (es.filterMap Effect.told?) := by
  obtain ⟨left, m, after⟩ := step_move h
  rw [Table.contains, after.deliveries, if_pos rfl]
  cases m with
  | unnamed _ _ => exact .told _
  | again _ _ _ => exact .told _
  | await _ _ _ => exact .goesOn
  | @refuse id i cause _ _ _ _ =>
    have told := told_last (told_wakes st id) id (failedReply i.id cause.message)
    simp only [List.filterMap_cons, Effect.told?, told]
    exact .told _
  | apply _ _ _ _ =>
    rw [List.filterMap_append, told_correlationLines]
    exact .goesOn
  | @fail id _ a fault _ =>
    have told := told_last (told_wakes st id) id (failedReply a.id fault.message)
    simp only [List.filterMap_cons, Effect.told?, told]
    exact .told _
  | @complete id _ a _ =>
    rw [told_last]
    · exact .told _
    · rw [List.filterMap_append, told_wakes, told_stops]
      rfl
  | resume _ => exact .told _
  | expire _ => exact .told _
  | @interrupt id _ _ _ =>
    rw [told_wakes]
    exact .dropped
  | leave _ _ => exact .dropped

/-- Nobody is told of a drop, and there is none where there is no delivery. -/
theorem drop_step (s : Settings) (st : State) (id : CallId) :
    st.deliveries.contains id = false ∧ step s st (.drop id) = none ∨
    st.deliveries.contains id = true ∧ ∃ st' es, step s st (.drop id) = some (st', es) ∧
      st'.deliveries.contains id = false ∧ es.filterMap Effect.told? = [] := by
  unfold Table.contains
  cases at_ : st.deliveries.get? id with
  | none => exact .inl ⟨rfl, by simp [step, at_]⟩
  | some d =>
    have h : step s st (.drop id) = some (st.drop id d) := by simp [step, at_]
    exact .inr ⟨rfl, _, _, h, (step_ending h).of_dropped⟩

end ChangeRelay.Reaction
