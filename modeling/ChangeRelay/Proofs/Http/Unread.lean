import ChangeRelay.Http.Exchange

/-!
# Plain requests that the host does not see

Events in a plain request come to the host only if the request is for a stream and its body can be
read. What is wrong with any other is known from the request alone: `Unread` lists it, with the
status of the answer.

* `plan_of_post`, `plan_of_unread`: a request with events is for the host if and only if nothing
  is wrong with it.
* **`exchange_of_unread`**: if something is, it is answered with a failure, and leaves the host as
  it was, whatever goes on there.
-/

namespace ChangeRelay

namespace Http

/-- What is wrong with a request that would send events. -/
inductive Unread (router : Router) (r : Request) : Nat → Prop
  | path (none : Endpoint.ofTarget? router r.target = none) : Unread router r 404
  /-- The path is for something else. -/
  | method (other : Endpoint.ofTarget? router r.target = some .health ∨
      Endpoint.ofTarget? router r.target = some .metrics) : Unread router r 405
  | source {segment : String}
      (target : Endpoint.ofTarget? router r.target = some (.events (some segment)))
      (garbled : Text.ofBytes? (percentDecode (Text.bytes segment)) = none) : Unread router r 400
  | type (other : r.contentType.any isJson = false) : Unread router r 415
  | length (long : maxBody < r.body.length) : Unread router r 413
  | malformed (read : Wire.Body.read r.body = .error .malformed) : Unread router r 400
  | shape (read : Wire.Body.read r.body = .error .shape) : Unread router r 422

variable {router : Router} {r : Request} {status : Nat}

theorem Unread.status_ne (u : Unread router r status) : status ≠ 200 := by
  cases u <;> decide

/-- What is to be done about a body. -/
theorem events_cases (r : Request) (dispatch : Wire.Body → Dispatch.Request) :
    (∃ status, r.events dispatch = .status status ∧ Unread router r status) ∨
    ∃ body, r.events dispatch = .work (dispatch body) ∧ r.contentType.any isJson = true ∧
      r.body.length ≤ maxBody ∧ Wire.Body.read r.body = .ok body := by
  unfold Request.events
  by_cases type : r.contentType.any isJson = true
  · rw [type, Bool.not_true, if_neg Bool.false_ne_true]
    by_cases long : maxBody < r.body.length
    · rw [if_pos long]
      exact .inl ⟨_, rfl, .length long⟩
    · rw [if_neg long]
      cases read : Wire.Body.read r.body with
      | error fault =>
        left
        cases fault with
        | malformed => exact ⟨_, rfl, .malformed read⟩
        | shape => exact ⟨_, rfl, .shape read⟩
      | ok body => exact .inr ⟨body, rfl, rfl, Nat.le_of_not_lt long, rfl⟩
  · have type := Bool.eq_false_iff.mpr type
    rw [type, Bool.not_false, if_pos rfl]
    exact .inl ⟨_, rfl, .type type⟩

/-- The body of a request for the host can be read, and so can its source. -/
structure Readable (router : Router) (r : Request) : Prop where
  target : ∃ source?, Endpoint.ofTarget? router r.target = some (.events source?) ∧
    ∀ segment, source? = some segment →
      (Text.ofBytes? (percentDecode (Text.bytes segment))).isSome = true
  type : r.contentType.any isJson = true
  length : r.body.length ≤ maxBody
  body : ∃ body, Wire.Body.read r.body = .ok body

theorem Readable.not_unread (readable : Readable router r) : ¬Unread router r status := by
  obtain ⟨⟨source?, target, named⟩, type, length, body, read⟩ := readable
  intro u
  cases u with
  | path none => exact absurd (target.symm.trans none) (by simp)
  | method other =>
    rcases other with other | other
    · exact absurd (target.symm.trans other) (by simp)
    · exact absurd (target.symm.trans other) (by simp)
  | source target' garbled =>
    obtain rfl := Endpoint.events.inj (Option.some.inj (target.symm.trans target'))
    exact absurd (named _ rfl) (by simp [garbled])
  | type other => exact absurd (type.symm.trans other) (by simp)
  | length long => omega
  | malformed read' => exact absurd (read.symm.trans read') (by simp)
  | shape read' => exact absurd (read.symm.trans read') (by simp)

/-- **What is to be done about a request with events**: it is for the host, or something is wrong
with it. -/
theorem plan_of_post (post : r.method = "POST") :
    (∃ status, r.plan router = .status status ∧ Unread router r status) ∨
    ∃ request, r.plan router = .work request ∧ Readable router r := by
  unfold Request.plan
  cases target : Endpoint.ofTarget? router r.target with
  | none => exact .inl ⟨_, rfl, .path target⟩
  | some endpoint =>
    cases endpoint with
    | health =>
      left
      simp only [post, show ¬"POST" = "GET" by decide, show ¬"POST" = "HEAD" by decide, if_false]
      exact ⟨_, rfl, .method (.inl target)⟩
    | metrics =>
      left
      simp only [post, show ¬"POST" = "GET" by decide, show ¬"POST" = "HEAD" by decide, if_false]
      exact ⟨_, rfl, .method (.inr target)⟩
    | events source? =>
      simp only [post, ne_eq, not_true_eq_false, if_false]
      cases source? with
      | none =>
        rcases events_cases r Request.ofDefault with unread | ⟨body, work, type, length, read⟩
        · exact .inl unread
        · exact .inr ⟨_, work, ⟨none, target, by simp⟩, type, length, body, read⟩
      | some segment =>
        cases named : Text.ofBytes? (percentDecode (Text.bytes segment)) with
        | none =>
          simp only [named]
          exact .inl ⟨_, rfl, .source target named⟩
        | some source =>
          simp only [named]
          rcases events_cases r (Request.ofSource source) with
            unread | ⟨body, work, type, length, read⟩
          · exact .inl unread
          · refine .inr ⟨_, work, ⟨some segment, target, ?_⟩, type, length, body, read⟩
            rintro _ ⟨⟩
            rw [named]
            rfl

/-- **A request with which something is wrong** is answered with a failure. -/
theorem plan_of_unread (post : r.method = "POST") (u : Unread router r status) :
    ∃ status', r.plan router = .status status' ∧ status' ≠ 200 := by
  rcases plan_of_post post with ⟨status', plan, u'⟩ | ⟨_, -, readable⟩
  · exact ⟨status', plan, u'.status_ne⟩
  · exact absurd u readable.not_unread

end Http

namespace Simulation.World

theorem task_withTask {w : World} {i : Nat} (there : i < w.tasks.size) (t : Task) :
    (w.withTask i t).task i = t := by
  simp [task, withTask, there]

theorem withTask_withTask (w : World) (i : Nat) (t t' : Task) :
    (w.withTask i t).withTask i t' = w.withTask i t' := by
  simp [withTask]

/-- **Who only looks at the counters** leaves everybody else and the host alone: it takes its turn
and is over. -/
theorem turn_look {w : World} {i : Nat} (there : i < w.tasks.size)
    (looks : w.task i = .ofErrand .look 0 none) : ∃ t,
      w.turn i = { w with alarms := w.alarms + 1 }.withTask i t ∧
      t.stage = .over (.counters w.host.dispatch.counts w.host.reaction.counts) w.now := by
  have there' : i < ({ w with alarms := w.alarms + 1 } : World).tasks.size := there
  unfold turn
  simp only [looks, Task.ofErrand, sleep, alarmAt, if_true, decide_true, Nat.add_zero, Nat.le_refl,
    task_withTask there', withTask_withTask, begin, finish]
  exact ⟨_, rfl, rfl⟩

/-- Nothing more happens once the only task is over. -/
theorem runFor_over {w : World} {t : Task} {outcome : Outcome} {time : Nat} (tasks : w.tasks = #[t])
    (ended : t.stage = .over outcome time) (idle : w.ready = []) (fuel : Nat) :
    w.runFor (fuel + 1) = w := by
  have quiet : w.alarmed = [] := by
    simp [alarmed, task, tasks, Task.alarms, ended]
  unfold runFor
  simp only [idle, jump, quiet]
  rfl

theorem runFor_turn {w : World} {i : Nat} {rest : List Nat} (ready : w.ready = i :: rest)
    (fuel : Nat) : w.runFor (fuel + 1) = runFor fuel ({ w with ready := rest }.turn i) := by
  rw [runFor, ready]

theorem two_le_turns (w : World) : 2 ≤ w.turns := by
  unfold turns
  dsimp only
  rw [Nat.mul_assoc]
  refine Nat.le_trans (by decide : 2 ≤ 100 * 1) (Nat.mul_le_mul_left 100 (Nat.succ_le_of_lt ?_))
  exact Nat.mul_pos (Nat.succ_pos _) (by omega)

/-- **A caller that only looks at the counters** comes back with them at once. -/
theorem run_look (w : World) : ∃ tasks, w.run [.ofErrand .look 0 none] =
    ({ w with alarms := w.alarms + 1, tasks, ready := [] },
      [some (.counters w.host.dispatch.counts w.host.reaction.counts, w.now)]) := by
  let alone (ready : List Nat) : World := { w with tasks := #[.ofErrand .look 0 none], ready }
  obtain ⟨fuel, turns⟩ := Nat.exists_eq_add_of_le' (two_le_turns (alone [0]))
  obtain ⟨t, turn, ended⟩ := turn_look (w := alone []) (i := 0) Nat.one_pos rfl
  have goes : (alone [0]).runFor (alone [0]).turns =
      { w with alarms := w.alarms + 1, tasks := #[t], ready := [] } := by
    rw [turns, runFor_turn rfl]
    exact (congrArg (runFor (fuel + 1)) turn).trans (runFor_over rfl ended rfl fuel)
  refine ⟨#[t], ?_⟩
  unfold run
  refine (congrArg (fun w : World => (w, w.tasks.toList.map _)) goes).trans ?_
  simp only [List.map_cons, List.map_nil, ended]
  rfl

end Simulation.World

namespace Http

variable {router : Router} {r : Request} {status : Nat}

/-- **A request with which something is wrong** is answered with a failure, whatever goes on in the
host, and leaves everything there as it was. -/
theorem exchange_of_unread (post : r.method = "POST") (u : Unread router r status)
    (w : Simulation.World) : ∃ status' tasks, status' ≠ 200 ∧ exchange router w r =
      ({ w with alarms := w.alarms + 1, tasks, ready := [] }, some ⟨status', none⟩) := by
  obtain ⟨status', plan, failure⟩ := plan_of_unread post u
  obtain ⟨tasks, run⟩ := w.run_look
  refine ⟨status', tasks, failure, ?_⟩
  unfold exchange
  rw [plan]
  simp only [Plan.status, Plan.errand, run]
  rfl

end Http

end ChangeRelay
